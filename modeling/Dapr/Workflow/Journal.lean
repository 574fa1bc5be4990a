import Dapr.Workflow.Turn
/-!
# The journal of an instance

Behind the branches of admission and of a turn there are few things that can happen to what
is saved of an instance and held for it. `Journal.Step` lists them. Properties of every run
of an actor are proved for the journal; that an actor's steps are runs of its journal is
proved apart.
-/

namespace Dapr.Workflow

/-! ## Resolutions of tasks and children -/

def stepKey (e : HistoryEvent) : Option Scheduling := (resolves e).filter fun k => k.kind ≠ .timer

def stepKeys (events : List HistoryEvent) : List Scheduling := events.filterMap stepKey

variable {e : HistoryEvent} {k : Scheduling} {cached saved : List HistoryEvent}

theorem resolves_of_stepKey (h : stepKey e = some k) : resolves e = some k ∧ k.kind ≠ .timer := by
  simpa [stepKey] using h

theorem stepKey_of_resolves (h : resolves e = some k) (hk : k.kind ≠ .timer) : stepKey e = some k := by
  simp [stepKey, h, hk]

theorem mem_stepKeys {events : List HistoryEvent} : k ∈ stepKeys events ↔ ∃ e ∈ events, stepKey e = some k := by
  simp [stepKeys]

@[simp] theorem stepKeys_append (l₁ l₂ : List HistoryEvent) : stepKeys (l₁ ++ l₂) = stepKeys l₁ ++ stepKeys l₂ := by
  simp [stepKeys]

theorem stepKey_of_timerFired (h : e.isTimerFired = true) : stepKey e = none := by
  unfold HistoryEvent.isTimerFired at h
  unfold stepKey resolves
  split at h
  · rename_i id heq
    simp [heq]
  · cases h

theorem stepKey_of_executionTerminated (h : isExecutionTerminated e = true) : stepKey e = none := by
  obtain ⟨b, heq⟩ := eventType_of_executionTerminated h
  simp [stepKey, resolves, heq]

def persistable (inbox : List HistoryEvent) : List HistoryEvent := inbox.filter fun e => !e.isTimerFired

@[simp] theorem stepKeys_persistable (inbox : List HistoryEvent) : stepKeys (persistable inbox) = stepKeys inbox := by
  unfold stepKeys persistable
  rw [List.filterMap_filter]
  congr 1
  funext e
  cases h : e.isTimerFired with
  | false => simp
  | true => simp [stepKey_of_timerFired h]

/-! ## The cached inbox -/

/-- The inbox in memory holds the saved one, then perhaps terminations that were never saved,
and among them fired timers. -/
def CachedInbox (cached saved : List HistoryEvent) : Prop :=
  ∃ extra, persistable cached = saved ++ extra ∧ ∀ e ∈ extra, isExecutionTerminated e = true

theorem CachedInbox.stepKeys (h : CachedInbox cached saved) : stepKeys cached = stepKeys saved := by
  obtain ⟨extra, heq, hx⟩ := h
  have hnone : Workflow.stepKeys extra = [] :=
    List.filterMap_eq_nil_iff.2 fun e he => stepKey_of_executionTerminated (hx e he)
  rw [← stepKeys_persistable cached, heq, stepKeys_append, hnone, List.append_nil]

/-- The cached inbox holds what was saved. -/
theorem CachedInbox.subset (h : CachedInbox cached saved) : saved ⊆ persistable cached := by
  obtain ⟨extra, heq, -⟩ := h
  rw [heq]
  exact List.subset_append_left _ _

/-! ## The journal -/

/-- What was saved and what is held, without the states. -/
structure Journal where
  saves : List Saved
  held : Held
  taken : List FoldEntry
  committed : Bool

namespace Journal

def durable (j : Journal) : Option Saved := j.saves.head?

def save (j : Journal) (d : Saved) : Journal := { j with saves := d :: j.saves }

def commit (j : Journal) (d : Saved) : Journal := { j.save d with committed := true }

end Journal

/-- What the stored form of an admitted event is, and that on a signing host a completion is
attested for a step that history records, unless it passes for a failure the host made up. -/
structure Vetted (o : Orchestrator) (history : List HistoryEvent) (e stored : HistoryEvent) : Prop where
  stored : stored = e ∨ stored = stripSignerCertificate e
  attested : o.signer = true → ∀ c, completionOf e = some c → o.isLocalSyntheticFailure e = true ∨
    Attested o.verification.Accepts o.actorID history e

/-- What is asked of the inputs of a run: of an event that is delivered while a history is the
saved one, and of a turn that runs on a history, an inbox and held completions. -/
structure Conditions where
  admits : List HistoryEvent → HistoryEvent → Prop
  admits_mono : ∀ {history history' e}, history <+: history' → admits history e → admits history' e
  turn : List HistoryEvent → List HistoryEvent → List FoldEntry → TurnEnv → Prop

/-- A turn is running on the saved record and a cached inbox, with completions of the same
generation in its hands. -/
structure Journal.Turn (C : Conditions) (j : Journal) (d : Saved) (inbox : List HistoryEvent) (env : TurnEnv) :
    Prop where
  durable : j.durable = some d
  cachedInbox : CachedInbox inbox d.inbox
  current : ∀ p ∈ j.taken, p.gen = d.generation
  cond : C.turn d.history inbox j.taken env

/-- A function that changes nothing but the contents of start events. -/
def PinsStart (f : HistoryEvent → HistoryEvent) : Prop :=
  ∀ e, f e = e ∨ e.getExecutionStarted.isSome ∧ (f e).getExecutionStarted.isSome

theorem not_dispatchable_of_start (h : e.getExecutionStarted.isSome = true) : isDispatchableEvent e = false := by
  obtain ⟨b, heq⟩ := HistoryEvent.eventType_of_executionStarted h
  simp [isDispatchableEvent, heq]

/-- A function that keeps the ids of events, and changes nothing in a turn that does not
continue as new. -/
structure KeepsEvents (continuedAsNew : Bool) (f : HistoryEvent → HistoryEvent) : Prop where
  eventId : ∀ e, (f e).eventId = e.eventId
  same : continuedAsNew = false → f = id

/-- What can happen to the saves of an instance and to its held completions. -/
inductive Journal.Step (o : Orchestrator) (C : Conditions) : Journal → Journal → Prop where
  /-- An event that resolves nothing resolved before is added to the inbox. -/
  | enqueue {j d inbox e stored} (hd : j.durable = some d) (hinbox : CachedInbox inbox d.inbox)
      (hC : C.admits d.history e) (hdup : isDuplicateCompletion e d.history inbox = false)
      (hv : Vetted o d.history e stored) :
      Step o C j (j.save ⟨persistable (inbox ++ [stored]), d.history, d.generation⟩)
  /-- An activity result is held, if its step was scheduled and no held one resolves it. -/
  | hold {j d e stored k} (hd : j.durable = some d) (htaken : j.taken = []) (hC : C.admits d.history e)
      (hk : resolves e = some k) (htask : k.kind = .task) (hsched : isScheduled d.history k = true)
      (hnew : j.held.foldPendingEntry e = none) (hv : Vetted o d.history e stored) :
      Step o C j { j with held := (j.held.foldSubmit stored d.generation).2 }
  | tombstone {j d marker} (hd : j.durable = some d) (hm : isTamperMarker marker = true) (hid : marker.eventId < 0) :
      Step o C j (j.save ⟨persistable d.inbox, d.history ++ [marker], d.generation⟩)
  | unstartable {j d started failed} (hd : j.durable = some d) (hstart : started.getExecutionStarted.isSome = true)
      (hfail : failed.getExecutionCompleted.isSome = true)
      (hun : d.history = [] ∧ ∀ e ∈ d.inbox, e.getExecutionStarted = none) (hsid : started.eventId < 0)
      (hfid : failed.eventId < 0) :
      Step o C j (j.save ⟨[], d.history ++ [started, failed], d.generation⟩)
  | take {j d} (hd : j.durable = some d) (htaken : j.taken = []) :
      Step o C j { j with held := (j.held.foldTake d.generation).2, taken := (j.held.foldTake d.generation).1,
                          committed := false }
  /-- A turn that is too large moves the completions it took to the inbox. -/
  | move {j d inbox env} (ht : j.Turn C d inbox env) (hsize : env.oversize.isSome = true) :
      Step o C j (j.commit ⟨persistable (inbox ++ j.taken.map FoldEntry.event), d.history, d.generation⟩)
  /-- A stall is recorded; the inbox is kept. -/
  | stall {j d inbox events} (hd : j.durable = some d) (hinbox : CachedInbox inbox d.inbox)
      (hev : ∀ e ∈ events, (stalledDescription e).isSome = true) (hneg : ∀ e ∈ events, e.eventId < 0) :
      Step o C j (j.save ⟨persistable inbox, d.history ++ events, d.generation⟩)
  /-- A stall of a turn that continued as new: the history is dropped, the inbox is kept. -/
  | stallNew {j d inbox env rs events generation} (ht : j.Turn C d inbox env) (hsize : env.oversize = none)
      (hrs : env.engine = .finished rs) (hnew : rs.continuedAsNew = true)
      (hev : ∀ e ∈ events, (stalledDescription e).isSome = true)
      (hgen : rs.stalled.isSome = true ∧ generation = d.generation ∨
        rs.stalled = none ∧ (∃ description, env.dispatch = .payloadSizeExceeded description) ∧
          generation = d.generation + 1) (hneg : ∀ e ∈ events, e.eventId < 0) :
      Step o C j (j.save ⟨persistable inbox, events, generation⟩)
  /-- An abandoned execution that continued as new becomes a pending start. -/
  | abandon {j d inbox old env rs} (hd : j.durable = some d)
      (hin : ∀ e ∈ inbox, e.getExecutionStarted.isSome = true ∨ isEventRaised e = true)
      (ht : j.Turn C d old env) (hrs : env.engine = .abandoned rs) (hnew : rs.continuedAsNew = true) :
      Step o C j (j.commit ⟨persistable inbox, [], d.generation + 1⟩)
  /-- A first turn is saved without the steps that were not dispatched; the inbox is kept. -/
  | partialDispatch {j d inbox env rs filtered early f withheld generation failedEventIDs remote} (ht : j.Turn C d inbox env)
      (hsize : env.oversize = none) (hrs : env.engine = .finished rs) (hstall : rs.stalled = none)
      (hfirst : d.history = []) (hstart : ∃ e ∈ inbox, e.getExecutionStarted.isSome = true)
      (hstrip : stripUnmatchedResolutions d.history rs.newEvents (!rs.completed && !rs.continuedAsNew) =
        (filtered, early)) (hf : PinsStart f)
      (hgen : generation = if rs.continuedAsNew then d.generation + 1 else d.generation)
      (hkeeps : KeepsEvents rs.continuedAsNew f) (hdispatch : env.dispatch = .failed failedEventIDs remote)
      (hw : withheld = fun e => !(isDispatchableEvent e && failedEventIDs.contains e.eventId)) :
      Step o C j (j.save ⟨persistable inbox, (filtered.map f).filter withheld, generation⟩)
  /-- A turn commits: its events go to history, early results stay in the inbox. -/
  | commit {j d inbox env rs filtered early f} (ht : j.Turn C d inbox env) (hsize : env.oversize = none)
      (hrs : env.engine = .finished rs) (hstall : rs.stalled = none)
      (hstrip : stripUnmatchedResolutions d.history rs.newEvents (!rs.completed && !rs.continuedAsNew) =
        (filtered, early)) (hf : PinsStart f) (hkeeps : KeepsEvents rs.continuedAsNew f) :
      Step o C j (j.commit ⟨persistable early, (if rs.continuedAsNew then [] else d.history) ++ filtered.map f,
        if rs.continuedAsNew then d.generation + 1 else d.generation⟩)
  | ack {j} (hc : j.committed = true) :
      Step o C j { j with held := j.held.foldAck j.taken, taken := [], committed := false }
  | nack {j} : Step o C j { j with held := j.held.foldNack j.taken, taken := [], committed := false }
  | flush {j} (ht : j.taken = []) : Step o C j { j with held := j.held.foldFlush }

/-- One save with a start, and nothing is held. -/
structure Journal.Created (j : Journal) : Prop where
  saves : ∃ start generation, j.saves = [⟨[start], [], generation⟩] ∧ start.getExecutionStarted.isSome = true
  held : j.held = .empty
  taken : j.taken = []
  committed : j.committed = false

/-- What steps from a created journal lead to. -/
def Journal.Reached (o : Orchestrator) (C : Conditions) : Journal → Prop :=
  Lib.Runs.Reachable Journal.Created (Journal.Step o C)

end Dapr.Workflow
