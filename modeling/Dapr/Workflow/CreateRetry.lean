import Dapr.Workflow.CreateTrace
/-!
# Retries of a create

A client that retries a create sends the execution id of its first attempt again. As long as
no turn continues as new, the instance keeps the start it was created with, and the retry is
recognised by it, whether the instance is pending, running or completed. A turn that continues
as new gives the start another execution id; once that generation has completed, the retry is
taken for a new create.
-/

namespace Dapr.Workflow

open List

variable {B : Type} {e : HistoryEvent} {events : List HistoryEvent}

/-! ## Creates of an actor -/

namespace Orchestrator

/-- Whether a create starts a run of the workflow, if it is saved. -/
def startsRun (o : Orchestrator) (env : Env) (world : CreateEnv) (a : Actor B) (req : CreateWorkflowInstanceRequest) :
    Bool :=
  match req.startEvent.getExecutionStarted, (o.loadInternalState env a).1 with
  | none, _ => false
  | some _, .error _ => false
  | some _, .ok none => true
  | some start, .ok (some s) => o.judgeExisting world s start req.enforceUniqueInstanceId = .recreate

/-- A create, as it shows in the saves of an actor. -/
def createStep (o : Orchestrator) (env : Env) (world : CreateEnv) (a : Actor B) (req : CreateWorkflowInstanceRequest) :
    Actor B :=
  match req.startEvent.getExecutionStarted with
  | none => a
  | some start =>
    let schedule := fun (a : Actor B) (s : State B) =>
      (a.save ((s.keepCreationInputOf start).addToInbox req.startEvent) world.save).2
    match o.loadInternalState env a with
    | (.error _, a) => a
    | (.ok none, a) =>
      match o.receiveHistory world req.propagatedHistory ((newState o.opts).setMetadataETag (some a.etag)) with
      | (false, _) => a
      | (true, s) => schedule a s
    | (.ok (some s), a) =>
      match o.judgeExisting world s start req.enforceUniqueInstanceId with
      | .ignore => a
      | .redrive _ => a
      | .refuse _ => a
      | .renotify => (a.save (s.setParentNotifyPending true) world.save).2
      | .recreate =>
        match o.receiveHistory world req.propagatedHistory s.reset with
        | (false, s) => { a with cached := some s }
        | (true, s) => schedule a s

end Orchestrator

/-! ## The start of an instance -/

def firstStart (events : List HistoryEvent) : Option ExecutionStartedEvent :=
  events.findSome? HistoryEvent.getExecutionStarted

theorem firstStart_cons (e : HistoryEvent) (events : List HistoryEvent) :
    firstStart (e :: events) = e.getExecutionStarted.or (firstStart events) := by
  cases h : e.getExecutionStarted <;> simp [firstStart, h]

@[simp] theorem firstStart_append (l₁ l₂ : List HistoryEvent) :
    firstStart (l₁ ++ l₂) = (firstStart l₁).or (firstStart l₂) := by
  simp [firstStart]

theorem firstStart_eq_none (h : ∀ e ∈ events, e.getExecutionStarted = none) :
    firstStart events = none :=
  findSome?_eq_none_iff.2 h

/-- Taking out events that are no starts does not change the first start. -/
theorem firstStart_filter {p : HistoryEvent → Bool}
    (h : ∀ e, e.getExecutionStarted.isSome = true → p e = true) : firstStart (events.filter p) = firstStart events := by
  induction events with
  | nil => rfl
  | cons e es ih =>
    cases hp : p e with
    | true => rw [filter_cons_of_pos hp, firstStart_cons, firstStart_cons, ih]
    | false =>
      have hnone : e.getExecutionStarted = none := by
        by_contra hne
        simp [h e (Option.isSome_iff_ne_none.2 hne)] at hp
      rw [filter_cons_of_neg (by simp [hp]), firstStart_cons, hnone, ih, Option.none_or]

theorem resolves_of_start (h : e.getExecutionStarted.isSome = true) : resolves e = none := by
  obtain ⟨b, heq⟩ := HistoryEvent.eventType_of_executionStarted h
  simp [resolves, heq]

theorem not_start_of_completed (h : e.getExecutionCompleted.isSome = true) :
    e.getExecutionStarted = none := by
  obtain ⟨b, heq⟩ := HistoryEvent.eventType_of_executionCompleted h
  simp [HistoryEvent.getExecutionStarted, heq]

theorem not_start_of_tamperMarker (h : isTamperMarker e = true) : e.getExecutionStarted = none :=
  not_start_of_completed (completed_of_isTamperMarker h)

theorem not_start_of_stalled (h : (stalledDescription e).isSome = true) :
    e.getExecutionStarted = none := by
  obtain ⟨description, heq⟩ := eventType_of_stalled h
  simp [HistoryEvent.getExecutionStarted, heq]

theorem isMatched_of_start (h : e.getExecutionStarted.isSome = true) :
    isMatched events e = true := by
  simp [isMatched, resolves_of_start h]

@[simp] theorem firstStart_persistable (inbox : List HistoryEvent) : firstStart (persistable inbox) = firstStart inbox :=
  firstStart_filter fun e he => by simp [HistoryEvent.isTimerFired_of_start he]

theorem CachedInbox.firstStart {cached saved : List HistoryEvent} (h : CachedInbox cached saved) :
    firstStart cached = firstStart saved := by
  obtain ⟨extra, heq, hx⟩ := h
  have hnone : Workflow.firstStart extra = none := by
    refine firstStart_eq_none fun e he => ?_
    obtain ⟨b, heq⟩ := eventType_of_executionTerminated (hx e he)
    simp [HistoryEvent.getExecutionStarted, heq]
  rw [← firstStart_persistable cached, heq, firstStart_append, hnone, Option.or_none]

/-- What is handed to the engine has the start of the inbox first. -/
theorem firstStart_unscheduledLast (history events : List HistoryEvent) :
    firstStart (unscheduledLast history events) = firstStart events := by
  have hloop : ∀ es, firstStart (unscheduledLast.loop history es).1 = firstStart es ∧
      firstStart (unscheduledLast.loop history es).2 = none := by
    intro es
    induction es with
    | nil => exact ⟨rfl, rfl⟩
    | cons e es ih =>
      simp only [unscheduledLast.loop]
      split
      · exact ⟨by rw [firstStart_cons, firstStart_cons, ih.1], ih.2⟩
      · rename_i hm
        have hnone : e.getExecutionStarted = none := by
          by_contra hne
          exact hm (isMatched_of_start (Option.isSome_iff_ne_none.2 hne))
        simp [firstStart_cons, hnone, ih]
  unfold unscheduledLast
  split
  · rfl
  · next i _ =>
    obtain ⟨h₁, h₂⟩ := hloop (events.drop i)
    simp only [firstStart_append, h₁, h₂, Option.or_none]
    rw [← firstStart_append, take_append_drop]

/-- The record is of a run without parent that was started under an execution id. -/
def Saved.IsRunOf (x : String) (d : Saved) : Prop :=
  ∃ start, firstStart (d.history ++ d.inbox) = some start ∧ start.parentInstance = none ∧ getValue start.executionId = x

theorem Saved.IsRunOf.of_firstStart {x : String} {d d' : Saved} (h : d.IsRunOf x)
    (heq : firstStart (d.history ++ d.inbox) = firstStart (d'.history ++ d'.inbox)) : d'.IsRunOf x := by
  obtain ⟨start, hstart, hrest⟩ := h
  exact ⟨start, heq ▸ hstart, hrest⟩

/-- Events that come later do not change the start. -/
theorem firstStart_append_of_some {l₁ l₂ : List HistoryEvent} {start : ExecutionStartedEvent}
    (h : firstStart l₁ = some start) : firstStart (l₁ ++ l₂) = some start := by
  rw [firstStart_append, h, Option.some_or]

/-! ## Turns that go on -/

/-- The engine's answer does not continue as new. -/
def TurnEnv.GoesOn (env : TurnEnv) : Prop :=
  (∀ rs, env.engine = .finished rs → rs.continuedAsNew = false) ∧
    ∀ rs, env.engine = .abandoned rs → rs.continuedAsNew = false

/-- The engine reports the start it was handed. -/
def TurnEnv.ReportsStart (env : TurnEnv) (history handed : List HistoryEvent) : Prop :=
  ∀ rs, env.engine = .finished rs → rs.continuedAsNew = false →
    firstStart (history ++ rs.newEvents) = firstStart (history ++ handed)

def keepsRun : Conditions where
  admits _ _ := True
  admits_mono _ h := h
  turn history inbox taken env :=
    env.GoesOn ∧ env.ReportsStart history (unscheduledLast history (inbox ++ taken.map FoldEntry.event))

namespace Journal

/-- The last save is of the run. -/
def IsRunOf (x : String) (j : Journal) : Prop := ∃ d, j.durable = some d ∧ d.IsRunOf x

section Step
variable {o : Orchestrator} {x : String} {j j' : Journal} {d : Saved} {inbox : List HistoryEvent} {env : TurnEnv}

theorem isRunOf_save (h : d.IsRunOf x) : (j.save d).IsRunOf x := ⟨d, rfl, h⟩

/-- The cached inbox, with events added to it, still has the start. -/
theorem isRunOf_cached (hd : d.IsRunOf x) (hinbox : CachedInbox inbox d.inbox) {history more : List HistoryEvent}
    {generation : Nat} (hhist : firstStart history = firstStart d.history) :
    Saved.IsRunOf x ⟨persistable (inbox ++ more), history, generation⟩ := by
  obtain ⟨start, hstart, hrest⟩ := hd
  refine ⟨start, ?_, hrest⟩
  rw [firstStart_append, firstStart_persistable, firstStart_append, hhist, hinbox.firstStart, ← Option.or_assoc,
    ← firstStart_append, hstart, Option.some_or]

/-- The new events of a turn that goes on bring the start to history, if it was not there. -/
theorem firstStart_newEvents (hd : d.IsRunOf x) (ht : j.Turn keepsRun d inbox env) {rs : EngineState}
    (hrs : env.engine = .finished rs) : firstStart (d.history ++ rs.newEvents) = firstStart (d.history ++ d.inbox) := by
  obtain ⟨hgoes, hreports⟩ := ht.cond
  obtain ⟨start, hstart, -⟩ := hd
  rw [hreports rs hrs (hgoes.1 rs hrs), firstStart_append, firstStart_unscheduledLast, firstStart_append,
    ht.cachedInbox.firstStart, ← Option.or_assoc, ← firstStart_append, hstart, Option.some_or]

theorem firstStart_filtered {history newEvents filtered early : List HistoryEvent} {keep : Bool}
    (h : stripUnmatchedResolutions history newEvents keep = (filtered, early)) :
    firstStart filtered = firstStart newEvents := by
  rw [filtered_eq h]
  exact firstStart_filter fun e he => isMatched_of_start he

theorem firstStart_early {history newEvents filtered early : List HistoryEvent} {keep : Bool}
    (h : stripUnmatchedResolutions history newEvents keep = (filtered, early)) : firstStart early = none := by
  refine firstStart_eq_none fun e he => ?_
  by_contra hne
  have := (mem_early h he).2.1
  rw [isMatched_of_start (Option.isSome_iff_ne_none.2 hne)] at this
  cases this

theorem isRunOf_step (h : j.IsRunOf x) (hs : Journal.Step o keepsRun j j') : j'.IsRunOf x := by
  obtain ⟨d, hd, hrun⟩ := h
  cases hs with
  | enqueue hd' hinbox =>
    cases hd.symm.trans hd'
    exact isRunOf_save (isRunOf_cached hrun hinbox rfl)
  | tombstone hd' hm =>
    cases hd.symm.trans hd'
    refine isRunOf_save (hrun.of_firstStart ?_)
    simp [firstStart_cons, not_start_of_tamperMarker hm]
  | unstartable hd' hstart hfail hun =>
    cases hd.symm.trans hd'
    obtain ⟨start, hstart, -⟩ := hrun
    rw [hun.1, nil_append, firstStart_eq_none hun.2] at hstart
    cases hstart
  | move ht =>
    cases hd.symm.trans ht.durable
    exact isRunOf_save (isRunOf_cached hrun ht.cachedInbox rfl)
  | stall hd' hinbox hev =>
    cases hd.symm.trans hd'
    have hnone : firstStart _ = none := firstStart_eq_none fun e he => not_start_of_stalled (hev e he)
    have hcached := @isRunOf_cached _ _ _ hrun hinbox (d.history ++ _) [] d.generation
      (by rw [firstStart_append, hnone, Option.or_none])
    rw [append_nil] at hcached
    exact isRunOf_save hcached
  | stallNew ht hsize hrs hnew =>
    have := ht.cond.1.1 _ hrs
    simp [hnew] at this
  | abandon hd' hin ht hrs hnew =>
    have := ht.cond.1.2 _ hrs
    simp [hnew] at this
  | partialDispatch ht hsize hrs hstall hfirst hstart hstrip hf hgen hkeeps hdispatch hw =>
    cases hd.symm.trans ht.durable
    obtain ⟨start, hfound, hrest⟩ := hrun
    refine isRunOf_save ⟨start, ?_, hrest⟩
    have hnew := firstStart_newEvents ⟨start, hfound, hrest⟩ ht hrs
    rw [hfound, hfirst, nil_append] at hnew
    refine firstStart_append_of_some ?_
    rw [hw, hkeeps.same (ht.cond.1.1 _ hrs), map_id, firstStart_filter ?_, firstStart_filtered hstrip, hnew]
    -- a start is never withheld
    intro e he
    simp [not_dispatchable_of_start he]
  | commit ht hsize hrs hstall hstrip hf hkeeps =>
    cases hd.symm.trans ht.durable
    have hgoes := ht.cond.1.1 _ hrs
    refine isRunOf_save (hrun.of_firstStart ?_)
    rw [← firstStart_newEvents hrun ht hrs, firstStart_append, firstStart_append, firstStart_append,
      firstStart_persistable, firstStart_early hstrip, Option.or_none, hkeeps.same hgoes, map_id,
      firstStart_filtered hstrip, hgoes]
    rfl
  | hold | take | ack | nack | flush => exact ⟨d, hd, hrun⟩

end Step

end Journal

/-! ## Retries -/

section Retry
variable {o : Orchestrator} {x : String} {a a' : Actor B} {s : State B} {d : Saved} {env : Env} {world : CreateEnv}
  {req : CreateWorkflowInstanceRequest} {start : ExecutionStartedEvent}

theorem start_of_knows (hk : Knows a s d) (hd : d.IsRunOf x) :
    ∃ start, s.getExecutionStartedEvent = some start ∧ start.parentInstance = none ∧ getValue start.executionId = x := by
  obtain ⟨start, hstart, hrest⟩ := hd
  obtain ⟨markers, hmarkers⟩ := hk.history
  refine ⟨start, ?_, hrest⟩
  have hnone : firstStart markers = none := by
    refine firstStart_eq_none fun e he => not_start_of_tamperMarker (hk.marked e ?_)
    rw [← hmarkers, drop_left]
    exact he
  rw [← hmarkers, firstStart_append, firstStart_append, hnone, Option.or_none] at hstart
  show firstStart (s.history ++ s.inbox) = some start
  rw [firstStart_append, hk.inbox.firstStart, hstart]

/-- An actor whose saved record is of the run under an execution id. -/
structure Actor.IsRunOf (o : Orchestrator) (x : String) (a : Actor B) : Prop where
  good : a.Good o
  run : a.journal.IsRunOf x

theorem Actor.IsRunOf.sim (h : a.IsRunOf o x) (hg : a'.Good o)
    (hrun : Relation.ReflTransGen (Journal.Step o keepsRun) a.journal a'.journal) : a'.IsRunOf o x := by
  refine ⟨hg, ?_⟩
  have hall : ∀ j, Relation.ReflTransGen (Journal.Step o keepsRun) a.journal j → j.IsRunOf x := by
    intro j hj
    induction hj with
    | refl => exact h.run
    | tail _ hs ih => exact Journal.isRunOf_step ih hs
  exact hall _ hrun

theorem durable_eq_none_of_load (h : o.loadInternalState env a = (.ok none, a')) : a.durable = none := by
  unfold Orchestrator.loadInternalState at h
  split at h
  · cases h
  · split at h
    · cases h
    · split at h
      · next hd => exact hd
      · dsimp only at h
        split at h
        · split at h <;> cases h
        · cases h

/-- A load of such an instance finds the start. -/
theorem Actor.IsRunOf.load (h : a.IsRunOf o x) {r : Except OrchError (Option (State B))}
    (hl : o.loadInternalState env a = (r, a')) :
    a'.IsRunOf o x ∧ r ≠ .ok none ∧ ∀ s, r = .ok (some s) →
      ∃ start, s.getExecutionStartedEvent = some start ∧ start.parentInstance = none ∧ getValue start.executionId = x := by
  obtain ⟨hsim, hcached⟩ := load_sim h.good hl
  have ha' := h.sim hsim.good hsim.run
  refine ⟨ha', ?_, ?_⟩
  · rintro rfl
    obtain ⟨d, hd, -⟩ := h.run
    exact Option.some_ne_none d (hd.symm.trans (durable_eq_none_of_load hl))
  · intro s hs
    obtain ⟨d, hk⟩ := hsim.good.cached s (hcached s hs)
    obtain ⟨d', hd', hrun⟩ := ha'.run
    cases hk.durable.symm.trans hd'
    exact start_of_knows hk hrun

/-- A create under the execution id of the instance is recognised. -/
theorem judgeExisting_retry {saved : ExecutionStartedEvent} (hs : s.getExecutionStartedEvent = some saved)
    (hsaved : getValue saved.executionId = x) (hx : x ≠ "") (hparent : start.parentInstance = none)
    (hid : getValue start.executionId = x) (enforceUnique : Bool) :
    o.judgeExisting world s start enforceUnique ≠ .recreate := by
  have hretry : s.isSameExecutionRetry start = true := by
    simp [State.isSameExecutionRetry, State.executionID, hs, hsaved, hid, hx]
  unfold Orchestrator.judgeExisting
  split
  · exact Orchestrator.judgeActive_ne_recreate
  · simp [Orchestrator.judgeCompleted, hparent, hretry]

/-- Only the create of a parent leads to another notification of it. -/
theorem judgeExisting_ne_renotify (hs : s.parentInstance = none) (enforceUnique : Bool) :
    o.judgeExisting world s start enforceUnique ≠ .renotify := by
  have hsame : s.isSameParentCreation start = (false, false) := by
    unfold State.isSameParentCreation
    split <;> simp_all
  unfold Orchestrator.judgeExisting
  split
  · unfold Orchestrator.judgeActive
    cases s.pendingStart <;> grind
  · unfold Orchestrator.judgeCompleted
    grind

/-- A create that starts no run, or that fails before anything of the run is saved. -/
def Orchestrator.Unaccepted (o : Orchestrator) (env : Env) (world : CreateEnv) (a : Actor B)
    (req : CreateWorkflowInstanceRequest) : Prop :=
  o.startsRun env world a req = false ∨
    world.save = .failed ∧ ∀ ph ∈ req.propagatedHistory, ∀ s : State B,
      (o.verifyAndAbsorbPropagatedHistory world ph s).1 = true

theorem Actor.save_failed (a : Actor B) (s : State B) : a.save s .failed = (false, a.invalidateCachedState) := by
  unfold Actor.save
  split <;> rfl

theorem Actor.IsRunOf.createStep (h : a.IsRunOf o x) (hun : o.Unaccepted env world a req) :
    (o.createStep env world a req).IsRunOf o x := by
  unfold Orchestrator.createStep
  cases hstart : req.startEvent.getExecutionStarted with
  | none => exact h
  | some start =>
    rcases hl : o.loadInternalState env a with ⟨r, a'⟩
    obtain ⟨ha', hne, hfound⟩ := h.load hl
    cases r with
    | error err => exact ha'
    | ok found =>
      cases found with
      | none => exact absurd rfl hne
      | some s =>
        obtain ⟨saved, hsaved, hparent, -⟩ := hfound s rfl
        have hnoparent : s.parentInstance = none := by simp [State.parentInstance, hsaved, hparent]
        dsimp only
        split
        · exact ha'
        · exact ha'
        · exact ha'
        · next hj => exact absurd hj (judgeExisting_ne_renotify hnoparent _)
        · next hj =>
          obtain hno | ⟨hfailed, hverifies⟩ := hun
          · simp [Orchestrator.startsRun, hstart, hl, hj] at hno
          · split
            · next hreceive =>
              obtain ⟨ph, hph, hrejected, -⟩ := Orchestrator.receiveHistory_rejected hreceive
              rw [hverifies ph hph] at hrejected
              cases hrejected
            · rw [hfailed, Actor.save_failed]
              exact ⟨ha'.good.invalidate, ha'.run⟩

/-- One step of an instance between a create and its retry: an input, or a create that is not
accepted. -/
inductive Orchestrator.Undisturbed (o : Orchestrator) : Actor B → Actor B → Prop where
  | input {a : Actor B} {i : Input} (h : i.Meets o keepsRun a) : Undisturbed o a (o.step a i)
  | create {a : Actor B} {env : Env} {world : CreateEnv} {req : CreateWorkflowInstanceRequest}
      (h : o.Unaccepted env world a req) : Undisturbed o a (o.createStep env world a req)

/-- A create under an execution id, without parent, has just been accepted. -/
structure Actor.Accepted (o : Orchestrator) (x : String) (a : Actor B) : Prop where
  good : a.Good o
  saved : ∃ e generation start, a.durable = some ⟨[e], [], generation⟩ ∧ e.getExecutionStarted = some start ∧
    start.parentInstance = none ∧ getValue start.executionId = x

theorem Actor.Accepted.isRunOf (h : a.Accepted o x) : a.IsRunOf o x := by
  obtain ⟨e, generation, start, hd, hstart, hrest⟩ := h.saved
  exact ⟨h.good, _, hd, start, by simp [firstStart_cons, hstart], hrest⟩

theorem Actor.IsRunOf.undisturbed (h : a.IsRunOf o x) (hrun : Relation.ReflTransGen o.Undisturbed a a') :
    a'.IsRunOf o x := by
  induction hrun with
  | refl => exact h
  | tail _ hs ih =>
    cases hs with
    | input hi =>
      obtain ⟨hr, hg⟩ := step_sim ih.good hi
      exact ih.sim hg hr
    | create hun => exact ih.createStep hun

/-- Between turns that go on, the retry of an accepted create starts no run. -/
theorem retry_starts_no_run (hx : x ≠ "") (ha : a.Accepted o x) (hrun : Relation.ReflTransGen o.Undisturbed a a')
    (hstart : req.startEvent.getExecutionStarted = some start) (hparent : start.parentInstance = none)
    (hid : getValue start.executionId = x) : o.startsRun env world a' req = false := by
  have ha' := ha.isRunOf.undisturbed hrun
  unfold Orchestrator.startsRun
  rw [hstart]
  rcases hl : o.loadInternalState env a' with ⟨r, a''⟩
  obtain ⟨-, hne, hfound⟩ := ha'.load hl
  cases r with
  | error err => rfl
  | ok found =>
    cases found with
    | none => exact absurd rfl hne
    | some s =>
      obtain ⟨saved, hsaved, -, hsavedid⟩ := hfound s rfl
      simp [judgeExisting_retry hsaved hsavedid hx hparent hid]

/-- The save of a start and nothing else. -/
theorem accepted_save (hg : a.Good o) (hstart : e.getExecutionStarted = some start)
    (hparent : start.parentInstance = none) (hid : getValue start.executionId = x) (hh : s.history = [])
    (hi : s.inbox = []) {outcome : SaveOutcome}
    (hne : (a.save ((s.keepCreationInputOf start).addToInbox e) outcome).2.saves ≠ a.saves) :
    (a.save ((s.keepCreationInputOf start).addToInbox e) outcome).2.Accepted o x := by
  have hsaved : ((s.keepCreationInputOf start).addToInbox e).saved = ⟨[e], [], s.generation⟩ := by
    have htimer : e.isTimerFired = false := HistoryEvent.isTimerFired_of_start (by simp [hstart])
    unfold State.keepCreationInputOf
    split <;>
      simp [State.saved, State.persistableInbox, State.addToInbox, State.setCreationInput, hh, hi, htimer]
  rcases hs : a.save ((s.keepCreationInputOf start).addToInbox e) outcome with ⟨ok, b⟩
  rw [hs] at hne
  obtain ⟨hb, -, ⟨hsame, -⟩ | ⟨-, hwrite⟩⟩ := hg.save hs
  · exact absurd hsame hne
  · have hd : b.durable = some ⟨[e], [], s.generation⟩ := by
      rw [← hsaved]
      exact congrArg List.head? hwrite
    exact ⟨hb, e, s.generation, start, hd, hstart, hparent, hid⟩

theorem receiveHistory_rest {ph : Option PropagatedHistory} {s' : State B}
    (h : o.receiveHistory world ph s = (true, s')) : s'.history = s.history ∧ s'.inbox = s.inbox := by
  cases ph with
  | none =>
    cases h
    exact ⟨rfl, rfl⟩
  | some ph =>
    obtain ⟨table, added, index, heq⟩ := verifyAndAbsorb_cases o world ph s
    simp only [Orchestrator.receiveHistory] at h
    split at h
    · cases h
    · rename_i s₁ hv
      cases h
      rw [hv] at heq
      subst heq
      exact ⟨rfl, rfl⟩

variable (hg : a.Good o) (hstart : req.startEvent.getExecutionStarted = some start)
  (hparent : start.parentInstance = none) (hid : getValue start.executionId = x)
  (hruns : o.startsRun env world a req = true)
  (hwritten : (o.createStep env world a req).saves ≠ (o.loadInternalState env a).2.saves)
include hg hstart hparent hid hruns hwritten

/-- A create that starts a run and is written is accepted. -/
theorem accepted_createStep : (o.createStep env world a req).Accepted o x := by
  rcases hl : o.loadInternalState env a with ⟨r, a'⟩
  have hg' := (load_sim (C := keepsRun) hg hl).1.good
  simp only [Orchestrator.startsRun, hstart, hl] at hruns
  simp only [Orchestrator.createStep, hstart, hl] at hwritten ⊢
  cases r with
  | error err => cases hruns
  | ok found =>
    cases found with
    | none =>
      dsimp only at hwritten ⊢
      split at hwritten
      · exact absurd rfl hwritten
      · next s' hr =>
        obtain ⟨hh, hi⟩ := receiveHistory_rest hr
        exact accepted_save hg' hstart hparent hid hh hi hwritten
    | some s =>
      have hj : o.judgeExisting world s start req.enforceUniqueInstanceId = .recreate := by simpa using hruns
      simp only [hj] at hwritten ⊢
      split at hwritten
      · exact absurd rfl hwritten
      · next s' hr =>
        obtain ⟨hh, hi⟩ := receiveHistory_rest hr
        exact accepted_save hg' hstart hparent hid hh hi hwritten

/-- From then on the instance is of this run. -/
theorem created_run_kept (hrun : Relation.ReflTransGen o.Undisturbed (o.createStep env world a req) a') :
    a'.IsRunOf o x :=
  (accepted_createStep hg hstart hparent hid hruns hwritten).isRunOf.undisturbed hrun

end Retry

/-! ## An instance to retry -/

def orderStart (x : String) : HistoryEvent :=
  exampleEvent (-1) (.executionStarted ⟨"order", none, "order-1", some x, none, none, none⟩)

def orderActor : Actor Unit := ⟨none, .empty, [], [⟨[orderStart "x"], [], 0⟩]⟩

def createOrderAs (x : String) : CreateWorkflowInstanceRequest := ⟨orderStart x, none, false⟩

theorem orderActor_accepted (o : Orchestrator) : orderActor.Accepted o "x" := by
  refine ⟨⟨fun s hs => (by cases hs), ?_, ?_⟩, orderStart "x", 0, _, rfl, rfl, rfl, rfl⟩
  · intro d hd
    obtain rfl := mem_singleton.1 hd
    rfl
  · simp [orderActor, CertVerifyCache.Sound]

/-- A create under another id does not replace the run. -/
theorem created_run_kept_second :
    let o := exampleHost false
    let create := o.createStep (exampleEnv .committed) (createEnv fun _ => none)
    (create (create ⟨none, .empty, [], []⟩ (createOrderAs "x")) (createOrderAs "y") : Actor Unit).IsRunOf o "x" := by
  intro o create
  refine created_run_kept ⟨by simp, by simp, ?_⟩ rfl rfl rfl (by decide) (by decide) (.single (.create (.inl (by decide))))
  simp [CertVerifyCache.Sound]

/-- The instance completes in its first turn; the client's retry is recognised. -/
theorem retry_starts_no_run_completed :
    let o := exampleHost false
    let env := { exampleTurn .committed [] .ok with
      engine := .finished ⟨⟨false, [orderStart "x", exampleEnd], none⟩, true, none, none⟩ }
    let completed := o.step orderActor (.turn env)
    completed.durable = some ⟨[], [orderStart "x", exampleEnd], 0⟩ ∧
      o.startsRun (exampleEnv .committed) (createEnv fun _ => none) completed (createOrderAs "x") = false := by
  intro o env completed
  refine ⟨rfl, retry_starts_no_run (by decide) (orderActor_accepted o) (.single (.input ?_)) rfl rfl rfl⟩
  intro s a' hprep
  cases hprep
  refine ⟨⟨of_finished rfl rfl, fun rs hrs => by cases hrs⟩, ?_⟩
  intro rs hrs _
  cases hrs
  rfl

/-- The first turn continues as new, and the second generation completes in it. The client's
retry starts the workflow again. -/
theorem retry_after_continue_as_new :
    let o := exampleHost false
    let env := { exampleTurn .committed [] .ok with
      engine := .finished ⟨⟨true, [orderStart "", exampleEnd], none⟩, true, none, none⟩ }
    let completed := o.step orderActor (.turn env)
    orderActor.Accepted o "x" ∧ completed.durable = some ⟨[], [orderStart "x/1", exampleEnd], 1⟩ ∧
      o.startsRun (exampleEnv .committed) (createEnv fun _ => none) completed (createOrderAs "x") = true ∧
      (o.createStep (exampleEnv .committed) (createEnv fun _ => none) completed (createOrderAs "x")).durable =
        some ⟨[orderStart "x"], [], 2⟩ :=
  ⟨orderActor_accepted _, by decide, by decide, by decide⟩

end Dapr.Workflow
