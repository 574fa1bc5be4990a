import Mathlib.Data.List.Nodup
import Dapr.Workflow.ActorRuns
/-!
# One resolution for each step

A step of a workflow is resolved once: what is saved of an instance holds one resolution of
it. Duplicates are turned away in three places that do not know of each other (admission
looks at the saved events, holding looks at what is held, the engine at its runtime state), so
the argument follows the keys of the resolutions through all of them.
-/

namespace Dapr.Workflow

open List

/-! ## Keys of events -/

theorem resolves_stripSignerCertificate (e : HistoryEvent) : resolves (stripSignerCertificate e) = resolves e := by
  unfold stripSignerCertificate
  split <;> rename_i heq <;> simp [resolves, heq]

variable {o : Orchestrator} {e : HistoryEvent} {events history inbox : List HistoryEvent}
  {f : HistoryEvent → HistoryEvent} {k : Scheduling} {d : Saved} {rs : EngineState} {j j' : Journal}

theorem Vetted.resolves_eq {h : List HistoryEvent} {e' : HistoryEvent} (hv : Vetted o h e e') :
    resolves e' = resolves e := by
  rcases hv.stored with rfl | rfl
  · rfl
  · exact resolves_stripSignerCertificate e

theorem stepKey_of_executionStarted (h : e.getExecutionStarted.isSome = true) : stepKey e = none := by
  obtain ⟨b, heq⟩ := HistoryEvent.eventType_of_executionStarted h
  simp [stepKey, resolves, heq]

theorem stepKey_of_executionCompleted (h : e.getExecutionCompleted.isSome = true) : stepKey e = none := by
  obtain ⟨b, heq⟩ := HistoryEvent.eventType_of_executionCompleted h
  simp [stepKey, resolves, heq]

theorem stepKey_of_tamperMarker (h : isTamperMarker e = true) : stepKey e = none :=
  stepKey_of_executionCompleted (completed_of_isTamperMarker h)

theorem stepKey_of_stalled (h : (stalledDescription e).isSome = true) : stepKey e = none := by
  obtain ⟨description, heq⟩ := eventType_of_stalled h
  simp [stepKey, resolves, heq]

theorem stepKey_of_eventRaised (h : isEventRaised e = true) : stepKey e = none := by
  obtain ⟨name, input, heq⟩ := eventType_of_eventRaised h
  simp [stepKey, resolves, heq]

theorem stepKeys_eq_nil (h : ∀ e ∈ events, stepKey e = none) : stepKeys events = [] :=
  filterMap_eq_nil_iff.2 h

theorem stepKeys_map_pinsStart (hf : PinsStart f) (events : List HistoryEvent) :
    stepKeys (events.map f) = stepKeys events := by
  unfold stepKeys
  rw [filterMap_map]
  congr 1
  funext e
  rcases hf e with h | ⟨h, h'⟩
  · simp [h]
  · simp [stepKey_of_executionStarted h, stepKey_of_executionStarted h']

theorem isPresent_of_mem_stepKeys (h : k ∈ stepKeys events) : isPresent events k = true := by
  obtain ⟨e, he, hk⟩ := mem_stepKeys.1 h
  exact any_eq_true.2 ⟨e, he, by simp [(resolves_of_stepKey hk).1]⟩

theorem fresh_of_not_duplicate (h : isDuplicateCompletion e history inbox = false) (hk : stepKey e = some k) :
    k ∉ stepKeys history ∧ k ∉ stepKeys inbox := by
  simp only [isDuplicateCompletion, (resolves_of_stepKey hk).1, Bool.or_eq_false_iff] at h
  constructor
  · intro hmem
    rw [isPresent_of_mem_stepKeys hmem] at h
    exact absurd h.1 (by simp)
  · intro hmem
    rw [isPresent_of_mem_stepKeys hmem] at h
    exact absurd h.2 (by simp)

/-! ## What is saved -/

/-- A start is in the inbox. -/
def HasStart (inbox : List HistoryEvent) : Prop := ∃ e ∈ inbox, e.getExecutionStarted.isSome = true

theorem HasStart.persistable (h : HasStart inbox) : HasStart (persistable inbox) := by
  obtain ⟨e, he, hs⟩ := h
  exact ⟨e, mem_filter.2 ⟨he, by simp [HistoryEvent.isTimerFired_of_start hs]⟩, hs⟩

theorem HasStart.mono {l l' : List HistoryEvent} (h : HasStart l) (hsub : l ⊆ l') : HasStart l' :=
  h.imp fun _ ⟨he, hs⟩ => ⟨hsub he, hs⟩

/-- Neither history nor inbox resolves a step twice. A step that both resolve is one of a first
turn that was saved in part and is run again: its start is still in the inbox. -/
structure OneResolution (d : Saved) : Prop where
  history : (stepKeys d.history).Nodup
  inbox : (stepKeys d.inbox).Nodup
  both : ∀ k ∈ stepKeys d.history, k ∈ stepKeys d.inbox → HasStart d.inbox

/-- The same keys, and the start is kept. -/
theorem OneResolution.of_keys {d' : Saved} (h : OneResolution d) (hh : stepKeys d'.history = stepKeys d.history)
    (hi : stepKeys d'.inbox = stepKeys d.inbox) (hs : HasStart d.inbox → HasStart d'.inbox) : OneResolution d' where
  history := hh ▸ h.history
  inbox := hi ▸ h.inbox
  both := fun k hk hk' => hs (h.both k (hh ▸ hk) (hi ▸ hk'))

/-- Events of new steps in the inbox. -/
theorem OneResolution.add (h : OneResolution d) {added : List HistoryEvent} (hc : CachedInbox inbox d.inbox)
    (hn : (stepKeys added).Nodup) (hfresh : ∀ k ∈ stepKeys added, k ∉ stepKeys d.history ∧ k ∉ stepKeys d.inbox)
    (generation : Nat) : OneResolution ⟨persistable (inbox ++ added), d.history, generation⟩ where
  history := h.history
  inbox := by
    simp only [stepKeys_persistable, stepKeys_append, hc.stepKeys, nodup_append]
    refine ⟨h.inbox, hn, ?_⟩
    rintro k hk _ hk' rfl
    exact (hfresh k hk').2 hk
  both := by
    intro k hk hk'
    simp only [stepKeys_persistable, stepKeys_append, hc.stepKeys, mem_append] at hk'
    rcases hk' with hk' | hk'
    · have hsub : d.inbox ⊆ persistable (inbox ++ added) := fun e he => by
        rw [persistable, filter_append]
        exact mem_append_left _ (hc.subset he)
      exact (h.both k hk hk').mono hsub
    · exact absurd hk (hfresh k hk').1

/-! ## The engine -/

/-- AddEvent refuses a resolution that the runtime state holds already, so the new events of a
turn resolve each step once, and none that the history they are added to resolves. -/
structure AddEventDedups (history : List HistoryEvent) (rs : EngineState) : Prop where
  once : (stepKeys rs.newEvents).Nodup
  fresh : rs.continuedAsNew = false → ∀ k ∈ stepKeys rs.newEvents, k ∉ stepKeys history

instance (history : List HistoryEvent) (rs : EngineState) : Decidable (AddEventDedups history rs) :=
  decidable_of_iff ((stepKeys rs.newEvents).Nodup ∧
    (rs.continuedAsNew = false → ∀ k ∈ stepKeys rs.newEvents, k ∉ stepKeys history))
    ⟨fun h => ⟨h.1, h.2⟩, fun h => ⟨h.once, h.fresh⟩⟩

/-- Every engine result obeys AddEvent; nothing else is asked. -/
def engineDedups : Conditions where
  admits _ _ := True
  admits_mono _ _ := trivial
  turn history _ _ env := ∀ rs, env.engine = .finished rs → AddEventDedups history rs

/-- Besides, a turn whose payload is too large has taken no completion of a step that history or
inbox resolve. -/
def dedupsAndMovesFresh : Conditions where
  admits _ _ := True
  admits_mono _ _ := trivial
  turn history inbox taken env := (∀ rs, env.engine = .finished rs → AddEventDedups history rs) ∧
    (env.oversize.isSome = true → ∀ p ∈ taken, isDuplicateCompletion p.event history inbox = false)

/-- The events a turn writes to history and those it keeps in the inbox resolve each step once. -/
theorem OneResolution.commit (h : OneResolution d) (hrs : AddEventDedups d.history rs)
    {filtered early : List HistoryEvent} (hf : PinsStart f)
    (hstrip : stripUnmatchedResolutions d.history rs.newEvents (!rs.completed && !rs.continuedAsNew) = (filtered, early))
    (generation : Nat) :
    OneResolution ⟨persistable early, (if rs.continuedAsNew then [] else d.history) ++ filtered.map f, generation⟩ := by
  have hsub : (stepKeys filtered).Sublist (stepKeys rs.newEvents) := by
    rw [filtered_eq hstrip]
    exact filter_sublist.filterMap _
  have hearlySub : (stepKeys early).Sublist (stepKeys rs.newEvents) := (early_sublist hstrip).filterMap _
  constructor
  · rw [stepKeys_append, stepKeys_map_pinsStart hf, nodup_append]
    cases hcan : rs.continuedAsNew with
    | true => exact ⟨by simp [stepKeys], hrs.once.sublist hsub, by simp [stepKeys]⟩
    | false =>
      refine ⟨h.history, hrs.once.sublist hsub, ?_⟩
      rintro k hk _ hk' rfl
      exact hrs.fresh hcan k (hsub.subset hk') hk
  · rw [stepKeys_persistable]
    exact hrs.once.sublist hearlySub
  · intro k hk hk'
    rw [stepKeys_persistable] at hk'
    obtain ⟨e, he, hek⟩ := mem_stepKeys.1 hk'
    obtain ⟨-, hun, -, hkeep⟩ := mem_early hstrip he
    simp only [Bool.and_eq_true, Bool.not_eq_true'] at hkeep
    rw [hkeep.2, stepKeys_append, stepKeys_map_pinsStart hf, mem_append] at hk
    rcases hk with hk | hk
    · exact absurd hk (hrs.fresh hkeep.2 k (hearlySub.subset hk'))
    · -- whether an event is matched depends on its key alone
      obtain ⟨x, hx, hxk⟩ := mem_stepKeys.1 hk
      rw [filtered_eq hstrip, mem_filter] at hx
      simp only [isMatched, (resolves_of_stepKey hxk).1] at hx
      simp only [isMatched, (resolves_of_stepKey hek).1, hx.2] at hun
      cases hun

/-! ## Runs -/

/-- Every save resolves each step once, and so do the completions in memory. -/
structure Journal.Resolved (j : Journal) : Prop where
  saves : ∀ d ∈ j.saves, OneResolution d
  memory : (stepKeys ((j.taken ++ j.held.pending).map FoldEntry.event)).Nodup

theorem Journal.Resolved.durable (h : j.Resolved) (hd : j.durable = some d) : OneResolution d :=
  h.saves d (mem_of_head? hd)

/-- A save that resolves each step once, with nothing new in memory. -/
theorem Journal.Resolved.save (h : j.Resolved) (hd : OneResolution d) : (j.save d).Resolved where
  saves := forall_mem_cons.2 ⟨hd, h.saves⟩
  memory := h.memory

theorem Journal.Resolved.commit (h : j.Resolved) (hd : OneResolution d) : (j.commit d).Resolved where
  saves := forall_mem_cons.2 ⟨hd, h.saves⟩
  memory := h.memory

/-- Entries that leave the memory, or change places in it, keep it without duplicates. -/
theorem Journal.Resolved.shrink (h : j.Resolved) (hs : j'.saves = j.saves)
    (hsub : (j'.taken ++ j'.held.pending).Sublist (j.taken ++ j.held.pending)) : j'.Resolved where
  saves := hs ▸ h.saves
  memory := h.memory.sublist ((hsub.map _).filterMap _)

/-- A held completion resolves a step that no other in memory does. -/
theorem Journal.Resolved.hold (h : j.Resolved) (htaken : j.taken = []) {stored : HistoryEvent}
    (hk : resolves e = some k) (htask : k.kind = .task) (hnew : j.held.foldPendingEntry e = none)
    (hv : Vetted o history e stored) (generation : Nat) :
    { j with held := (j.held.foldSubmit stored generation).2 }.Resolved where
  saves := h.saves
  memory := by
    have hkey : stepKey stored = some k :=
      stepKey_of_resolves (hv.resolves_eq.trans hk) (by rw [htask]; decide)
    have hmem := h.memory
    simp only [htaken, nil_append] at hmem ⊢
    have hpend : (j.held.foldSubmit stored generation).2.pending.map FoldEntry.event =
        j.held.pending.map FoldEntry.event ++ [stored] := by
      simp [Held.foldSubmit]
    rw [hpend, stepKeys_append, nodup_append]
    refine ⟨hmem, by simp [stepKeys, hkey], ?_⟩
    rintro k' hk' _ hs rfl
    simp only [stepKeys, filterMap_cons, hkey, filterMap_nil, mem_singleton] at hs
    subst hs
    obtain ⟨x, hx, hxk⟩ := mem_stepKeys.1 hk'
    obtain ⟨p, hp, rfl⟩ := mem_map.1 hx
    simp only [Held.foldPendingEntry, hk, find?_eq_none, decide_eq_true_eq] at hnew
    exact hnew p hp (resolves_of_stepKey hxk).1

theorem resolved_step (h : j.Resolved) (hs : Journal.Step o dedupsAndMovesFresh j j') : j'.Resolved := by
  cases hs with
  | @enqueue d inbox e stored hd hinbox _ hdup hv =>
    refine h.save ((h.durable hd).add hinbox ?_ ?_ _)
    · cases hkey : stepKey stored <;> simp [stepKeys, hkey]
    · intro k hk
      obtain ⟨x, hx, hxk⟩ := mem_stepKeys.1 hk
      obtain rfl := mem_singleton.1 hx
      have hkey : stepKey e = some k := by
        obtain ⟨hr, ht⟩ := resolves_of_stepKey hxk
        exact stepKey_of_resolves (hv.resolves_eq ▸ hr) ht
      rw [← hinbox.stepKeys]
      exact fresh_of_not_duplicate hdup hkey
  | hold hd htaken _ hk htask _ hnew hv => exact h.hold htaken hk htask hnew hv _
  | @tombstone d marker hd hm =>
    refine h.save ((h.durable hd).of_keys ?_ (stepKeys_persistable _) .persistable)
    simp [stepKeys, stepKey_of_tamperMarker hm]
  | @unstartable d started failed hd hstart hfail =>
    refine h.save ⟨?_, by simp [stepKeys], by simp [stepKeys]⟩
    have hkeys : stepKeys [started, failed] = [] := by
      simp [stepKeys, stepKey_of_executionStarted hstart, stepKey_of_executionCompleted hfail]
    rw [stepKeys_append, hkeys, append_nil]
    exact (h.durable hd).history
  | @take d hd htaken =>
    refine h.shrink rfl ?_
    rw [htaken]
    exact Held.foldTake_sublist _ _
  | @move d inbox env ht hsize =>
    refine h.commit ((h.durable ht.durable).add ht.cachedInbox ?_ ?_ _)
    · exact h.memory.sublist (((sublist_append_left _ _).map _).filterMap _)
    · intro k hk
      obtain ⟨x, hx, hxk⟩ := mem_stepKeys.1 hk
      obtain ⟨p, hp, rfl⟩ := mem_map.1 hx
      rw [← ht.cachedInbox.stepKeys]
      exact fresh_of_not_duplicate (ht.cond.2 hsize p hp) hxk
  | @stall d inbox events hd hinbox hev =>
    refine h.save ((h.durable hd).of_keys ?_ ?_ fun hs => hs.mono hinbox.subset)
    · simp [stepKeys_eq_nil fun e he => stepKey_of_stalled (hev e he)]
    · rw [stepKeys_persistable, hinbox.stepKeys]
  | @stallNew d inbox env rs events generation ht hsize hrs hnew hev hgen =>
    have hnil := stepKeys_eq_nil fun e he => stepKey_of_stalled (hev e he)
    refine h.save ⟨by simp [hnil], ?_, by simp [hnil]⟩
    rw [stepKeys_persistable, ht.cachedInbox.stepKeys]
    exact (h.durable ht.durable).inbox
  | @abandon d inbox old env rs hd hin =>
    have hnil : stepKeys inbox = [] := stepKeys_eq_nil fun e he =>
      (hin e he).elim stepKey_of_executionStarted stepKey_of_eventRaised
    exact h.commit ⟨by simp [stepKeys], by simp [hnil], by simp [stepKeys]⟩
  | @partialDispatch d inbox env rs filtered early f withheld generation failed remote ht hsize hrs hstall hfirst hstart
      hstrip hf =>
    have hdedups := ht.cond.1 rs hrs
    have hcommit := (h.durable ht.durable).commit hdedups hf hstrip generation
    have hkeys : (stepKeys (filtered.map f)).Nodup := by
      have hnodup := hcommit.history
      rw [stepKeys_append] at hnodup
      exact (nodup_append.1 hnodup).2.1
    refine h.save ⟨hkeys.sublist (filter_sublist.filterMap _), ?_, fun _ _ _ => HasStart.persistable hstart⟩
    rw [stepKeys_persistable, ht.cachedInbox.stepKeys]
    exact (h.durable ht.durable).inbox
  | commit ht hsize hrs hstall hstrip hf =>
    exact h.commit ((h.durable ht.durable).commit (ht.cond.1 _ hrs) hf hstrip _)
  | ack | nack => exact h.shrink rfl (sublist_append_right _ _)
  | flush => exact h.shrink rfl (Sublist.append_left (nil_sublist _) _)

theorem resolved_created (h : j.Created) : j.Resolved := by
  obtain ⟨start, generation, hs, hstart⟩ := h.saves
  constructor
  · intro d hd
    rw [hs, mem_singleton] at hd
    subst hd
    exact ⟨by simp [stepKeys], by simp [stepKeys, stepKey_of_executionStarted hstart], by simp [stepKeys]⟩
  · simp [h.taken, h.held, Held.empty, stepKeys]

/-- Whatever is delivered to an actor and however its turns end, each record it saves resolves a
step at most once, but for steps of a first turn that was saved in part, whose inbox is kept. -/
theorem saved_resolutions_unique {B : Type} {o : Orchestrator} {a : Actor B} (h : a.Reached o dedupsAndMovesFresh)
    {d : Saved} (hd : d ∈ a.saves) :
    (stepKeys d.history).Nodup ∧ (stepKeys d.inbox).Nodup ∧
      (¬ HasStart d.inbox → (stepKeys (d.history ++ d.inbox)).Nodup) := by
  have hres : a.journal.Resolved :=
    Lib.Runs.Reachable.invariant Journal.Resolved (fun _ => resolved_created) (fun _ _ => resolved_step) h.journal.1
  obtain ⟨hh, hi, hboth⟩ := hres.saves d hd
  refine ⟨hh, hi, ?_⟩
  intro hstart
  rw [stepKeys_append, nodup_append]
  refine ⟨hh, hi, ?_⟩
  rintro k hk _ hk' rfl
  exact hstart (hboth k hk hk')

/-! ## An instance to run -/

/-- What the engine's runtime state says, read off the events. -/
def eventRuntime : Runtime where
  isCompleted history := history.any fun e => e.getExecutionCompleted.isSome
  isStalled history := (history.getLast?.bind stalledDescription).isSome

/-- Verification where nothing was ever attested. -/
def noVerification : HistoryVerification where
  certDigest cert := cert
  verifyAttestation _ _ _ _ := .error "unknown signer"
  unmarshalPayload _ := none
  canonicalSpecVersion := 1
  verifySignature _ _ _ := false
  verifyCertChainOfTrust _ _ := false
  ioDigest _ _ := []
  canonicalSuccessOutput _ := []
  canonicalFailureOutput _ := none
  leafValidity _ := none

def exampleHost (signer : Bool) : Orchestrator :=
  ⟨"app", "default", "order-1", signer, eventRuntime, noVerification, id⟩

def exampleEnv (save : SaveOutcome) : Env := ⟨none, 0, true, true, .current, save, .committed, true⟩

def exampleTurn (save : SaveOutcome) (newEvents : List HistoryEvent) (dispatch : Dispatch) : TurnEnv where
  toEnv := exampleEnv save
  reminder := .wake
  inboxCurrent := some true
  oversize := none
  janitor := true
  engine := .finished ⟨⟨false, newEvents, none⟩, false, none, none⟩
  sideEffects := true
  dispatch := dispatch
  terminalJanitor := true
  stallSave := .committed

def exampleEvent (eventId : Int) (eventType : EventType) : HistoryEvent := ⟨eventId, some 0, none, eventType⟩

def exampleStart : HistoryEvent := exampleEvent (-1) (.executionStarted ⟨"order", none, "order-1", none, none, none, none⟩)

def exampleTask (id : Int) : HistoryEvent := exampleEvent id (.taskScheduled ⟨"charge", none, "", none⟩)

def exampleResult (id : Int) : HistoryEvent := exampleEvent (-1) (.taskCompleted ⟨id, "", none, none, []⟩)

/-- The result of a task sent by this app. -/
def deliverResult (id : Int) (canFold : Bool) : Input :=
  .deliver (exampleEnv .committed) (.method "app" "" "" canFold) (exampleResult id)

def exampleActor : Actor Unit := ⟨none, .empty, [], [⟨[exampleStart], [], 0⟩]⟩

theorem exampleActor_reached (o : Orchestrator) (C : Conditions) : exampleActor.Reached o C :=
  .start ⟨rfl, rfl, rfl, exampleStart, 0, rfl, rfl⟩

/-- What holds of the result of an engine holds of every result it has. -/
theorem of_finished {env : TurnEnv} {P : EngineState → Prop} (he : env.engine = .finished rs) (h : P rs) :
    ∀ rs', env.engine = .finished rs' → P rs' := by
  intro rs' hrs
  rw [he] at hrs
  exact EngineResult.finished.inj hrs ▸ h

/-- A step is scheduled, resolved through memory and committed once. -/
theorem saved_resolutions_unique_run :
    let o := exampleHost false
    let scheduled := o.step exampleActor (.turn (exampleTurn .committed [exampleStart, exampleTask 0] .ok))
    let held := o.step scheduled (deliverResult 0 true)
    let resolved := o.step held (.turn (exampleTurn .committed [exampleResult 0] .ok))
    resolved.Reached o dedupsAndMovesFresh ∧ ∃ d ∈ resolved.saves,
      d.history = [exampleStart, exampleTask 0, exampleResult 0] ∧ (stepKeys (d.history ++ d.inbox)).Nodup := by
  intro o scheduled held resolved
  have hscheduled : scheduled.Reached o dedupsAndMovesFresh := by
    apply (exampleActor_reached _ _).turn
    intro s hs
    cases hs
    exact ⟨of_finished rfl (by decide), nofun⟩
  have hreached : resolved.Reached o dedupsAndMovesFresh := by
    apply (hscheduled.next (deliverResult 0 true) (fun _ _ => trivial)).turn
    intro s hs
    cases hs
    exact ⟨of_finished rfl (by decide), nofun⟩
  refine ⟨hreached, _, .head _, rfl, (saved_resolutions_unique hreached (.head _)).2.2 ?_⟩
  simp only [HasStart]
  decide

/-- The inbox of a first turn that is saved in part is kept, so that the whole turn is run again; a
result that came before its step is then in history and in the inbox. -/
theorem partialDispatch_repeats_resolution :
    ∃ a : Actor Unit, a.Reached (exampleHost false) engineDedups ∧
      ∃ d ∈ a.saves, ¬ (stepKeys (d.history ++ d.inbox)).Nodup := by
  -- the task is dispatched, the save fails, and its result arrives
  have hdispatched := (exampleActor_reached (exampleHost false) engineDedups).turn
    (exampleTurn .failed [exampleStart, exampleTask 0] .ok) (by
      intro s hs
      cases hs
      exact of_finished rfl (by decide))
  have hearly := hdispatched.next (deliverResult 0 false) (fun _ _ => trivial)
  -- the turn is run again, and another task cannot be dispatched
  have hpart := hearly.turn
    (exampleTurn .committed [exampleStart, exampleResult 0, exampleTask 0, exampleTask 1] (.failed [1] true)) (by
      intro s hs
      cases hs
      exact of_finished rfl (by decide))
  exact ⟨_, hpart, _, .head _, by decide⟩

end Dapr.Workflow
