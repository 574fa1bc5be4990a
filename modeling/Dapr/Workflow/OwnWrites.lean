import Dapr.Workflow.HeldSteps
/-!
# A host and its own writes

A signing host that loads an inbox event without a scheduling in history takes the instance
for tampered with and fails it. So everything the host itself puts into an inbox must have its
scheduling next to it, whatever was lost or repeated on the way.
-/

namespace Dapr.Workflow

open List

/-! ## Events that may stand next to a history -/

/-- A result needs its scheduling; of other events only the kind matters. -/
theorem isValidInboxEvent_eq (history : List HistoryEvent) (e : HistoryEvent) :
    isValidInboxEvent history e =
      match stepKey e with
      | some k => isScheduled history k
      | none => isValidInboxEvent [] e := by
  obtain ⟨eventId, timestamp, router, eventType⟩ := e
  cases eventType <;> rfl

variable {history inbox : List HistoryEvent} {e : HistoryEvent} {kind : AttestationKind}
  {recorded : RecordedInvocation} {d : Saved} {o : Orchestrator} {j j' : Journal}

theorem isValidInboxEvent_of_scheduled {k : Scheduling} (hk : stepKey e = some k) :
    isValidInboxEvent history e = isScheduled history k := by
  rw [isValidInboxEvent_eq, hk]

theorem isValidInboxEvent_mono {history' : List HistoryEvent} (hp : history <+: history')
    (h : isValidInboxEvent history e = true) : isValidInboxEvent history' e = true := by
  rw [isValidInboxEvent_eq] at h ⊢
  split at h
  · exact isScheduled_mono hp h
  · exact h

theorem isValidInboxEvent_of_terminated (h : isExecutionTerminated e = true) : isValidInboxEvent history e = true := by
  obtain ⟨b, heq⟩ := eventType_of_executionTerminated h
  simp [isValidInboxEvent, heq]

theorem isValidInboxEvent_of_start (h : e.getExecutionStarted.isSome = true) : isValidInboxEvent history e = true := by
  obtain ⟨b, heq⟩ := HistoryEvent.eventType_of_executionStarted h
  simp [isValidInboxEvent, heq]

theorem isValidInboxEvent_of_eventRaised (h : isEventRaised e = true) : isValidInboxEvent history e = true := by
  obtain ⟨name, input, heq⟩ := eventType_of_eventRaised h
  simp [isValidInboxEvent, heq]

def AttestationKind.stepKind : AttestationKind → StepKind
  | .child => .childWorkflow
  | .activity => .task

theorem stepKey_of_completion {c : Completion} (hc : completionOf e = some c) :
    stepKey e = some ⟨c.kind.stepKind, c.taskID⟩ := by
  unfold completionOf at hc
  split at hc
  · rename_i heq; cases hc; simp [stepKey, resolves, heq, AttestationKind.stepKind]
  · rename_i heq; cases hc; simp [stepKey, resolves, heq, AttestationKind.stepKind]
  · rename_i heq; cases hc; simp [stepKey, resolves, heq, AttestationKind.stepKind]
  · rename_i heq; cases hc; simp [stepKey, resolves, heq, AttestationKind.stepKind]
  · cases hc

theorem stripSignerCertificate_of_other (hc : completionOf e = none) : stripSignerCertificate e = e := by
  obtain ⟨eventId, timestamp, router, eventType⟩ := e
  cases eventType <;> first | rfl | cases hc

theorem schedules_of_recorded (h : recordedInvocation kind e = some recorded) :
    schedules e = some ⟨kind.stepKind, e.eventId⟩ := by
  cases kind with
  | child =>
    obtain ⟨created, hc, -⟩ := Option.map_eq_some_iff.1 h
    unfold HistoryEvent.getChildWorkflowInstanceCreated at hc
    split at hc
    · rename_i heq; simp [schedules, heq, AttestationKind.stepKind]
    · cases hc
  | activity =>
    obtain ⟨scheduled, hs, -⟩ := Option.map_eq_some_iff.1 h
    exact schedules_of_taskScheduled hs

/-- The step of a completion that history records is scheduled. -/
theorem isScheduled_of_recorded {scheduling : HistoryEvent} {id : Int}
    (hfind : history.find? (fun x => x.eventId = id) = some scheduling)
    (hrec : recordedInvocation kind scheduling = some recorded) : isScheduled history ⟨kind.stepKind, id⟩ = true := by
  have hid : scheduling.eventId = id := by simpa using find?_some hfind
  refine any_eq_true.2 ⟨scheduling, mem_of_find?_eq_some hfind, ?_⟩
  simp [schedules_of_recorded hrec, hid]

/-! ## The conditions -/

/-- The engine makes up no results: those among the new events of a turn were handed to it. -/
def HandsResults (inbox : List HistoryEvent) (taken : List FoldEntry) (rs : EngineState) : Prop :=
  rs.continuedAsNew = false → ∀ k ∈ stepKeys rs.newEvents, k ∈ stepKeys (inbox ++ taken.map FoldEntry.event)

instance (inbox : List HistoryEvent) (taken : List FoldEntry) (rs : EngineState) : Decidable (HandsResults inbox taken rs) :=
  inferInstanceAs (Decidable (_ → _))

/-- Every engine result is of events that were handed to it; nothing else is asked. -/
def engineHands : Conditions where
  admits _ _ := True
  admits_mono _ _ := trivial
  turn _ inbox taken env := ∀ rs, env.engine = .finished rs → HandsResults inbox taken rs

/-- Besides, an event that is no completion is of a kind that has a place in an inbox, a failure
that passes for this app's own is of a step that the saved history schedules, and no turn that
continued as new is stalled. -/
def reloadable (o : Orchestrator) : Conditions where
  admits history e := (completionOf e = none → isValidInboxEvent [] e = true) ∧
    (o.isLocalSyntheticFailure e = true → ∀ k, stepKey e = some k → isScheduled history k = true)
  admits_mono hp h := ⟨h.1, fun hs k hk => isScheduled_mono hp (h.2 hs k hk)⟩
  turn _ inbox taken env := ∀ rs, env.engine = .finished rs → HandsResults inbox taken rs ∧
    (rs.continuedAsNew = true → rs.stalled = none ∧ ∀ description, env.dispatch ≠ .payloadSizeExceeded description)

theorem reloadable_noStallNew (o : Orchestrator) : (reloadable o).NoStallNew :=
  fun _ _ _ _ rs h hrs hnew => ((h rs hrs).2 hnew).1

/-! ## Runs -/

/-- Every event of the inbox may stand next to the history. -/
def ValidInbox (d : Saved) : Prop := ∀ e ∈ d.inbox, isValidInboxEvent d.history e = true

/-- What is in memory beside the saved inbox are terminations. -/
theorem ValidInbox.cached (h : ValidInbox d) (hc : CachedInbox inbox d.inbox) :
    ∀ e ∈ persistable inbox, isValidInboxEvent d.history e = true := by
  obtain ⟨extra, heq, hx⟩ := hc
  intro e he
  rw [heq, mem_append] at he
  rcases he with he | he
  · exact h e he
  · exact isValidInboxEvent_of_terminated (hx e he)

/-- What is added to an inbox on a signing host is checked against history, or meets the
conditions. -/
theorem isValidInboxEvent_of_vetted (hsigner : o.signer = true) {stored : HistoryEvent}
    (hC : (reloadable o).admits history e) (hv : Vetted o history e stored) :
    isValidInboxEvent history stored = true := by
  cases hc : completionOf e with
  | none =>
    have hstored : stored = e := hv.stored.elim id fun h => h.trans (stripSignerCertificate_of_other hc)
    rw [hstored]
    exact isValidInboxEvent_mono nil_prefix (hC.1 hc)
  | some c =>
    have hkey := stepKey_of_completion hc
    have hkey' : stepKey stored = some ⟨c.kind.stepKind, c.taskID⟩ := by
      rw [stepKey, hv.resolves_eq]
      exact hkey
    rw [isValidInboxEvent_of_scheduled hkey']
    rcases hv.attested hsigner c hc with hsyn | ⟨c', att, scheduling, recorded, hc', -, hfind, hrec, -⟩
    · exact hC.2 hsyn _ hkey
    · cases hc.symm.trans hc'
      exact isScheduled_of_recorded hfind hrec

theorem stepKey_of_unmatched {events : List HistoryEvent} (h : isMatched events e = false)
    (ht : e.isTimerFired = false) : ∃ k, stepKey e = some k ∧ isScheduled events k = false := by
  unfold isMatched at h
  split at h
  · cases h
  · rename_i k hk
    refine ⟨k, stepKey_of_resolves hk ?_, h⟩
    rintro hkind
    unfold resolves at hk
    unfold HistoryEvent.isTimerFired at ht
    split at hk <;> rename_i heq <;> simp_all
    all_goals subst hk; cases hkind

/-- No result is early: each one handed to the engine has its scheduling in history. -/
theorem early_eq_nil (hv : ValidInbox d) (hc : CachedInbox inbox d.inbox) {taken : List FoldEntry}
    (htaken : ∀ p ∈ taken, Scheduled d p ∧ p.gen = d.generation) {rs : EngineState}
    (hrs : HandsResults inbox taken rs) {filtered early : List HistoryEvent}
    (hstrip : stripUnmatchedResolutions d.history rs.newEvents (!rs.completed && !rs.continuedAsNew) =
      (filtered, early)) : early = [] := by
  rw [eq_nil_iff_forall_not_mem]
  intro e he
  obtain ⟨hnew, hun, htimer, hkeep⟩ := mem_early hstrip he
  obtain ⟨k, hk, hsched⟩ := stepKey_of_unmatched hun htimer
  simp only [Bool.and_eq_true, Bool.not_eq_true'] at hkeep
  have hhanded := hrs hkeep.2 k (mem_stepKeys.2 ⟨e, hnew, hk⟩)
  have hhistory : isScheduled d.history k = true := by
    rw [stepKeys_append, hc.stepKeys, mem_append] at hhanded
    rcases hhanded with hin | htk
    · obtain ⟨x, hx, hxk⟩ := mem_stepKeys.1 hin
      rw [← isValidInboxEvent_of_scheduled hxk]
      exact hv x hx
    · obtain ⟨x, hx, hxk⟩ := mem_stepKeys.1 htk
      obtain ⟨p, hp, rfl⟩ := mem_map.1 hx
      obtain ⟨⟨-, k', hk', -, hs⟩, hgen⟩ := htaken p hp
      cases (resolves_of_stepKey hxk).1.symm.trans hk'
      exact hs hgen
  rw [isScheduled_mono (prefix_append _ _) hhistory] at hsched
  cases hsched

/-- Every save can be loaded again, and the completions in memory can be saved. -/
structure Journal.Reloads (j : Journal) : Prop where
  saves : ∀ d ∈ j.saves, ValidInbox d
  memory : j.HoldsScheduled

theorem Journal.Reloads.durable (h : j.Reloads) (hd : j.durable = some d) : ValidInbox d :=
  h.saves d (mem_of_head? hd)

theorem Journal.Reloads.taken (h : j.Reloads) {C : Conditions} {env : TurnEnv} (ht : j.Turn C d inbox env) :
    ∀ p ∈ j.taken, Scheduled d p ∧ p.gen = d.generation :=
  fun p hmem => ⟨h.memory.scheduled ht.durable p (mem_append_left _ hmem), ht.current p hmem⟩

/-- What a step saves can be loaded again. -/
theorem validInbox_step (hsigner : o.signer = true) (h : j.Reloads) (hs : Journal.Step o (reloadable o) j j') :
    ∀ d ∈ j'.saves, ValidInbox d := by
  have hsave : ∀ {d'}, ValidInbox d' → ∀ d ∈ (j.save d').saves, ValidInbox d := fun hd' =>
    forall_mem_cons.2 ⟨hd', h.saves⟩
  cases hs with
  | @enqueue d inbox e stored hd hinbox hC _ hv =>
    refine hsave ?_
    intro x hx
    simp only [persistable, filter_append, mem_append] at hx
    rcases hx with hx | hx
    · exact (h.durable hd).cached hinbox x hx
    · obtain rfl := mem_singleton.1 (mem_filter.1 hx).1
      exact isValidInboxEvent_of_vetted hsigner hC hv
  | tombstone hd =>
    refine hsave ?_
    intro x hx
    exact isValidInboxEvent_mono (prefix_append _ _) (h.durable hd x (mem_filter.1 hx).1)
  | unstartable => exact hsave (by simp [ValidInbox])
  | @move d inbox env ht _ =>
    refine hsave ?_
    intro x hx
    simp only [persistable, filter_append, mem_append] at hx
    rcases hx with hx | hx
    · exact (h.durable ht.durable).cached ht.cachedInbox x hx
    · obtain ⟨p, hp, rfl⟩ := mem_map.1 (mem_filter.1 hx).1
      obtain ⟨⟨-, k, hk, htask, hsched⟩, hgen⟩ := h.taken ht p hp
      rw [isValidInboxEvent_of_scheduled (stepKey_of_resolves hk (by rw [htask]; decide))]
      exact hsched hgen
  | stall hd hinbox =>
    refine hsave ?_
    intro x hx
    exact isValidInboxEvent_mono (prefix_append _ _) ((h.durable hd).cached hinbox x hx)
  | stallNew ht _ hrs hnew _ hgen =>
    obtain ⟨hstall, hdispatch⟩ := (ht.cond _ hrs).2 hnew
    rcases hgen with ⟨hst, -⟩ | ⟨-, ⟨description, hd⟩, -⟩
    · rw [hstall] at hst
      cases hst
    · exact absurd hd (hdispatch description)
  | abandon _ hin =>
    refine hsave ?_
    intro x hx
    exact (hin x (mem_filter.1 hx).1).elim isValidInboxEvent_of_start isValidInboxEvent_of_eventRaised
  | partialDispatch ht _ _ _ hfirst =>
    refine hsave ?_
    intro x hx
    -- no result was in the inbox of a first turn
    have hx' := (h.durable ht.durable).cached ht.cachedInbox x hx
    rw [hfirst] at hx'
    exact isValidInboxEvent_mono nil_prefix hx'
  | commit ht _ hrs _ hstrip =>
    refine hsave ?_
    have hnil := early_eq_nil (h.durable ht.durable) ht.cachedInbox (h.taken ht) (ht.cond _ hrs).1 hstrip
    simp [ValidInbox, hnil, persistable]
  | hold | take | ack | nack | flush => exact h.saves

theorem reloads_step (hsigner : o.signer = true) (h : j.Reloads) (hs : Journal.Step o (reloadable o) j j') :
    j'.Reloads :=
  ⟨validInbox_step hsigner h hs, holdsScheduled_step (reloadable_noStallNew o) h.memory hs⟩

theorem reloads_created (h : j.Created) : j.Reloads := by
  refine ⟨?_, holdsScheduled_created h⟩
  obtain ⟨start, generation, hs, hstart⟩ := h.saves
  intro d hd e he
  rw [hs, mem_singleton] at hd
  subst hd
  rw [mem_singleton] at he
  exact isValidInboxEvent_of_start (he ▸ hstart)

/-- Whatever is delivered to a signing host and however its turns end, what it saves passes the
check of the next load. -/
theorem own_writes_load {B : Type} {o : Orchestrator} (hsigner : o.signer = true) {a : Actor B}
    (h : a.Reached o (reloadable o)) {d : Saved} (hd : d ∈ a.saves) :
    filterValidInboxEvents d.history d.inbox = d.inbox ∧ ∀ etag, o.condemns (o.stateOf d etag : State B) = false := by
  have hreloads : a.journal.Reloads :=
    Lib.Runs.Reachable.invariant Journal.Reloads (fun _ => reloads_created) (fun _ _ => reloads_step hsigner) h.journal.1
  have hvalid : filterValidInboxEvents d.history d.inbox = d.inbox := filter_eq_self.2 (hreloads.saves d hd)
  refine ⟨hvalid, ?_⟩
  intro etag
  have hlen : (filterValidInboxEvents (o.stateOf d etag : State B).history (o.stateOf d etag : State B).inbox).length =
      (o.stateOf d etag : State B).inbox.length := congrArg List.length hvalid
  simp [Orchestrator.condemns, hlen]

/-- The failure of a task that this app was not allowed to dispatch. -/
def exampleDenied (id : Int) : HistoryEvent where
  eventId := -1
  timestamp := some 0
  router := some ⟨"app", none⟩
  eventType := .taskFailed ⟨id, "", some ⟨errorTypeAccessPolicyDenied, "denied"⟩, none, []⟩

/-- The failure arrives by a reminder that the app made for itself. -/
def deliverDenied (id : Int) : Input := .deliver (exampleEnv .committed) (.reminder "app" "") (exampleDenied id)

/-- Once the scheduling is saved, the failure may be in the inbox. -/
theorem own_writes_load_denied :
    let o := exampleHost true
    let scheduled := o.step exampleActor (.turn (exampleTurn .committed [exampleStart, exampleTask 0] .ok))
    let denied := o.step scheduled (deliverDenied 0)
    denied.Reached o (reloadable o) ∧ ∃ d ∈ denied.saves, d.inbox = [exampleDenied 0] ∧
      filterValidInboxEvents d.history d.inbox = d.inbox := by
  intro o scheduled denied
  have hscheduled : scheduled.Reached o (reloadable o) := by
    apply (exampleActor_reached _ _).turn
    intro s hs
    cases hs
    exact of_finished rfl ⟨by decide, nofun⟩
  have hreached : denied.Reached o (reloadable o) := by
    apply hscheduled.next
    intro d hd
    cases hd
    refine ⟨nofun, ?_⟩
    intro _ k hk
    cases hk
    decide
  exact ⟨hreached, _, .head _, rfl, (own_writes_load rfl hreached (.head _)).1⟩

/-- A task is refused dispatch, the save of its scheduling fails, and its failure is put into the
inbox unchecked: the next cold load condemns the instance. -/
theorem own_failure_condemned :
    ∃ a : Actor Unit, a.Reached (exampleHost true) engineHands ∧
      (∃ d ∈ a.saves, filterValidInboxEvents d.history d.inbox ≠ d.inbox ∧
        ∀ etag, (exampleHost true).condemns ((exampleHost true).stateOf d etag : State Unit) = true) ∧
      ∃ d, a.durable = some d ∧ d.history.any isTamperMarker = true := by
  have hdispatched := (exampleActor_reached (exampleHost true) engineHands).turn
    (exampleTurn .failed [exampleStart, exampleTask 0] .ok) (by
      intro s hs
      cases hs
      exact of_finished rfl (by decide))
  have hdenied := hdispatched.next (deliverDenied 0) (fun _ _ => trivial)
  have hreload := (hdenied.next .invalidate trivial).turn (exampleTurn .committed [] .ok) (fun _ hs => nomatch hs)
  refine ⟨_, hreload, ⟨⟨[exampleStart, exampleDenied 0], [], 0⟩, by decide, by decide, fun etag => by rfl⟩, ?_⟩
  exact ⟨_, rfl, by decide⟩

end Dapr.Workflow
