import Dapr.Workflow.HeldSteps
/-!
# Ids that history has passed

An activity result is dropped when history holds an id at or beyond that of its task and no
task under it. The engine numbers steps in sequence, so what is missing below an id that is
there stays missing, as long as history has no gaps. A partial save that withholds a step
below one it keeps makes such a gap, and the next turn fills it.
-/

namespace Dapr.Workflow

open List

/-! ## Histories numbered in sequence -/

/-- The ids of steps; other events have negative ones. -/
def stepIds (events : List HistoryEvent) : List Int :=
  (events.filter fun e => 0 ≤ e.eventId).map HistoryEvent.eventId

variable {events h h' history : List HistoryEvent} {n : Int} {e : HistoryEvent} {j : Journal}

theorem mem_stepIds {id : Int} : id ∈ stepIds events ↔ ∃ e ∈ events, e.eventId = id ∧ 0 ≤ id := by
  simp only [stepIds, mem_map, mem_filter, decide_eq_true_eq]
  constructor
  · rintro ⟨e, ⟨he, h0⟩, rfl⟩
    exact ⟨e, he, rfl, h0⟩
  · rintro ⟨e, he, rfl, h0⟩
    exact ⟨e, ⟨he, h0⟩, rfl⟩

@[simp] theorem stepIds_append (l₁ l₂ : List HistoryEvent) : stepIds (l₁ ++ l₂) = stepIds l₁ ++ stepIds l₂ := by
  simp [stepIds]

theorem stepIds_eq_nil (h : ∀ e ∈ events, e.eventId < 0) : stepIds events = [] := by
  have hnone : (events.filter fun e => 0 ≤ e.eventId) = [] := by
    refine filter_eq_nil_iff.2 fun e he => ?_
    have := h e he
    simpa using this
  rw [stepIds, hnone, map_nil]

/-- Taking out events that are no steps takes out no ids. -/
theorem stepIds_filter {p : HistoryEvent → Bool} (h : ∀ e ∈ events, 0 ≤ e.eventId → p e = true) :
    stepIds (events.filter p) = stepIds events := by
  rw [stepIds, filter_filter]
  congr 1
  refine filter_congr fun e he => ?_
  by_cases h0 : 0 ≤ e.eventId
  · simp [h e he h0]
  · simp [h0]

theorem stepIds_map {f : HistoryEvent → HistoryEvent} (hf : ∀ e, (f e).eventId = e.eventId)
    (events : List HistoryEvent) : stepIds (events.map f) = stepIds events := by
  simp only [stepIds, filter_map, map_map, Function.comp_def, hf]

/-- The steps of a history are numbered from 0 on, each by an id of its own, and every task is a
step. -/
structure Numbered (history : List HistoryEvent) : Prop where
  nodup : (stepIds history).Nodup
  closed : ∀ id ∈ stepIds history, ∀ m, 0 ≤ m → m ≤ id → m ∈ stepIds history
  tasks : ∀ e ∈ history, e.getTaskScheduled.isSome = true → 0 ≤ e.eventId

theorem numbered_nil : Numbered [] := ⟨by simp [stepIds], by simp [stepIds], by simp⟩

/-- Only the ids of the steps and the tasks matter. -/
theorem Numbered.congr (hn : Numbered h) (hids : stepIds h' = stepIds h)
    (htasks : ∀ e ∈ h', e.getTaskScheduled.isSome = true → 0 ≤ e.eventId) : Numbered h' :=
  ⟨hids ▸ hn.nodup, hids ▸ hn.closed, htasks⟩

theorem Numbered.append_other (hn : Numbered h) (hneg : ∀ e ∈ events, e.eventId < 0)
    (htask : ∀ e ∈ events, e.getTaskScheduled = none) : Numbered (h ++ events) := by
  refine hn.congr (by rw [stepIds_append, stepIds_eq_nil hneg, append_nil]) ?_
  intro e he hsome
  rcases mem_append.1 he with he | he
  · exact hn.tasks e he hsome
  · simp [htask e he] at hsome

/-- What is kept of numbered events, when nothing is withheld below it. -/
theorem Numbered.keep (hn : Numbered events) {keep : HistoryEvent → Bool}
    (hlast : ∀ e ∈ events, keep e = false → ∀ e' ∈ events, keep e' = true → 0 ≤ e'.eventId → e'.eventId < e.eventId) :
    Numbered (events.filter keep) where
  nodup := hn.nodup.sublist ((filter_sublist.filter _).map _)
  closed := by
    intro id hid m h0 hle
    obtain ⟨e, he, rfl, hnonneg⟩ := mem_stepIds.1 hid
    obtain ⟨hmem, hkeep⟩ := mem_filter.1 he
    have hm := hn.closed e.eventId (mem_stepIds.2 ⟨e, hmem, rfl, hnonneg⟩) m h0 hle
    obtain ⟨x, hx, rfl, -⟩ := mem_stepIds.1 hm
    refine mem_stepIds.2 ⟨x, mem_filter.2 ⟨hx, ?_⟩, rfl, h0⟩
    by_contra hwithheld
    have := hlast x hx (by simpa using hwithheld) e hmem hkeep hnonneg
    omega
  tasks := fun e he => hn.tasks e (mem_filter.1 he).1

/-! ## Ids without a task -/

/-- The id is taken by something that is no task, or is no step's. -/
def Spent (n : Int) (history : List HistoryEvent) : Prop :=
  n < 0 ∨ ∃ e ∈ history, e.eventId = n ∧ e.getTaskScheduled = none

/-- The history schedules a task under the number. -/
def HasTask (n : Int) (history : List HistoryEvent) : Prop :=
  ∃ e ∈ history, e.eventId = n ∧ e.getTaskScheduled.isSome = true

theorem Spent.mono (hs : Spent n h) (hp : h <+: h') : Spent n h' :=
  hs.imp_right fun ⟨e, he, hrest⟩ => ⟨e, hp.subset he, hrest⟩

/-- Two events of one step id in a numbered history are one. -/
theorem Numbered.eq_of_eventId (hn : Numbered history) {e' : HistoryEvent} (he : e ∈ history) (he' : e' ∈ history)
    (heq : e.eventId = e'.eventId) (h0 : 0 ≤ e.eventId) : e = e' := by
  refine inj_on_of_nodup_map hn.nodup ?_ ?_ heq
  · exact mem_filter.2 ⟨he, by simpa using h0⟩
  · exact mem_filter.2 ⟨he', by simpa using heq ▸ h0⟩

theorem Spent.not_hasTask (hs : Spent n history) (hn : Numbered history) : ¬ HasTask n history := by
  rintro ⟨e, he, rfl, htask⟩
  rcases hs with hneg | ⟨e', he', heq, hnone⟩
  · have := hn.tasks e he htask
    omega
  · obtain rfl := hn.eq_of_eventId he' he heq (heq ▸ hn.tasks e he htask)
    rw [hnone] at htask
    cases htask

/-! ## Turns that leave no gaps -/

/-- The engine numbers the steps it creates in sequence, and its steps resolve nothing. -/
structure EngineState.Sequences (rs : EngineState) (history : List HistoryEvent) : Prop where
  numbered : Numbered history → Numbered (history ++ rs.newEvents)
  creates : ∀ e ∈ rs.newEvents, 0 ≤ e.eventId → resolves e = none

/-- Of the new events, none is withheld below one that is kept. -/
def WithholdsLast (failedEventIDs : List Int) (newEvents : List HistoryEvent) : Prop :=
  ∀ e ∈ newEvents, (isDispatchableEvent e && failedEventIDs.contains e.eventId) = true →
    ∀ e' ∈ newEvents, (isDispatchableEvent e' && failedEventIDs.contains e'.eventId) = false →
      0 ≤ e'.eventId → e'.eventId < e.eventId

def leavesNoGaps : Conditions where
  admits _ _ := True
  admits_mono _ h := h
  turn history _ _ env := ∀ rs, env.engine = .finished rs →
    rs.Sequences (if rs.continuedAsNew then [] else history) ∧
    (rs.continuedAsNew = true → rs.stalled = none) ∧
    ∀ failedEventIDs remote, env.dispatch = .failed failedEventIDs remote → history = [] →
      WithholdsLast failedEventIDs rs.newEvents

theorem leavesNoGaps_noStallNew : leavesNoGaps.NoStallNew := fun _ _ _ _ rs ht hrs hnew => (ht rs hrs).2.1 hnew

namespace Journal

/-- The last save has its tasks numbered. -/
def IsNumbered (j : Journal) : Prop := ∃ d, j.durable = some d ∧ Numbered d.history

section Step
variable {o : Orchestrator} {C : Conditions} {j' : Journal} {d : Saved} {newEvents filtered early : List HistoryEvent}
  {rs : EngineState} {keep : Bool} {f : HistoryEvent → HistoryEvent}

theorem not_task_of_start (h : e.getExecutionStarted.isSome = true) : e.getTaskScheduled = none := by
  obtain ⟨b, heq⟩ := HistoryEvent.eventType_of_executionStarted h
  simp [HistoryEvent.getTaskScheduled, heq]

theorem not_task_of_completed (h : e.getExecutionCompleted.isSome = true) : e.getTaskScheduled = none := by
  obtain ⟨b, heq⟩ := HistoryEvent.eventType_of_executionCompleted h
  simp [HistoryEvent.getTaskScheduled, heq]

theorem not_task_of_stalled (h : (stalledDescription e).isSome = true) : e.getTaskScheduled = none := by
  obtain ⟨description, heq⟩ := eventType_of_stalled h
  simp [HistoryEvent.getTaskScheduled, heq]

/-- History with what a turn adds to it, unmatched resolutions left out and starts pinned. -/
theorem numbered_turn {base : List HistoryEvent} (hseq : rs.Sequences base) (hbase : Numbered base)
    (hstrip : stripUnmatchedResolutions history rs.newEvents keep = (filtered, early)) (hf : PinsStart f)
    (hid : ∀ e, (f e).eventId = e.eventId) : Numbered (base ++ filtered.map f) := by
  have hn := hseq.numbered hbase
  have hfiltered := filtered_eq hstrip
  refine hn.congr ?_ ?_
  · rw [stepIds_append, stepIds_append, stepIds_map hid, hfiltered, stepIds_filter]
    intro e he h0
    simp [isMatched, hseq.creates e he h0]
  · intro e he htask
    rcases mem_append.1 he with he | he
    · exact hn.tasks e (mem_append_left _ he) htask
    · obtain ⟨x, hx, rfl⟩ := mem_map.1 he
      rcases hf x with heq | ⟨-, hstart⟩
      · rw [heq] at htask ⊢
        rw [hfiltered] at hx
        exact hn.tasks x (mem_append_right _ (mem_filter.1 hx).1) htask
      · simp [not_task_of_start hstart] at htask

/-- The withheld events of a partial save, after starts are pinned. -/
theorem withholdsLast_map {failedEventIDs : List Int} (h : WithholdsLast failedEventIDs newEvents) (hf : PinsStart f)
    (hid : ∀ e, (f e).eventId = e.eventId) (hsub : filtered ⊆ newEvents) :
    WithholdsLast failedEventIDs (filtered.map f) := by
  intro e he hwithheld e' he' hkept h0
  obtain ⟨x, hx, rfl⟩ := mem_map.1 he
  obtain ⟨x', hx', rfl⟩ := mem_map.1 he'
  rw [hid] at h0 ⊢
  rw [hid]
  refine h x (hsub hx) ?_ x' (hsub hx') ?_ h0
  · rcases hf x with heq | ⟨-, hstart⟩
    · rwa [heq] at hwithheld
    · simp [not_dispatchable_of_start hstart] at hwithheld
  · rcases hf x' with heq | ⟨hstart, -⟩
    · rwa [heq] at hkept
    · simp [not_dispatchable_of_start hstart]

theorem isNumbered_save (h : Numbered d.history) : (j.save d).IsNumbered := ⟨d, rfl, h⟩

theorem isNumbered_step (h : j.IsNumbered) (hs : Journal.Step o leavesNoGaps j j') : j'.IsNumbered := by
  obtain ⟨d, hd, hn⟩ := h
  cases hs with
  | enqueue hd' =>
    cases hd.symm.trans hd'
    exact isNumbered_save hn
  | hold => exact ⟨d, hd, hn⟩
  | tombstone hd' hm hid =>
    cases hd.symm.trans hd'
    refine isNumbered_save (hn.append_other ?_ ?_)
    · simpa using hid
    · simpa using not_task_of_completed (completed_of_isTamperMarker hm)
  | unstartable hd' hstart hfail hun hsid hfid =>
    cases hd.symm.trans hd'
    refine isNumbered_save (hn.append_other ?_ ?_)
    · simpa using ⟨hsid, hfid⟩
    · simpa using ⟨not_task_of_start hstart, not_task_of_completed hfail⟩
  | take => exact ⟨d, hd, hn⟩
  | move ht =>
    cases hd.symm.trans ht.durable
    exact isNumbered_save hn
  | stall hd' hinbox hev hneg =>
    cases hd.symm.trans hd'
    exact isNumbered_save (hn.append_other hneg fun e he => not_task_of_stalled (hev e he))
  | stallNew ht hsize hrs hnew hev hgen hneg =>
    have hall := numbered_nil.append_other hneg fun e he => not_task_of_stalled (hev e he)
    exact isNumbered_save hall
  | abandon => exact isNumbered_save numbered_nil
  | @partialDispatch d' inbox env rs filtered early f withheld generation failed remote ht hsize hrs hstall hfirst
      hstart hstrip hf hgen hkeeps hdispatch hw =>
    obtain ⟨hseq, -, hlast⟩ := ht.cond _ hrs
    rw [hfirst, ite_self] at hseq
    have hall := numbered_turn hseq numbered_nil hstrip hf hkeeps.eventId
    have hsub : filtered ⊆ rs.newEvents := by
      rw [filtered_eq hstrip]
      exact filter_subset_self _
    have hmapped := withholdsLast_map (hlast _ _ hdispatch hfirst) hf hkeeps.eventId hsub
    refine isNumbered_save (hall.keep ?_)
    intro e he hwithheld e' he' hkept
    rw [hw] at hwithheld hkept
    exact hmapped e he (by simpa using hwithheld) e' he' (by simpa only [Bool.not_eq_true'] using hkept)
  | commit ht hsize hrs hstall hstrip hf hkeeps =>
    cases hd.symm.trans ht.durable
    obtain ⟨hseq, -⟩ := ht.cond _ hrs
    refine isNumbered_save (numbered_turn hseq ?_ hstrip hf hkeeps.eventId)
    split
    · exact numbered_nil
    · exact hn
  | ack | nack | flush => exact ⟨d, hd, hn⟩

end Step

/-- After an id was found spent in a generation: what was saved since, and what is saved now. -/
structure AfterDrop (n : Int) (generation : Nat) (before : List Saved) (j : Journal) : Prop where
  later : ∃ later, j.saves = later ++ before ∧ ∀ d ∈ later, d.generation = generation → ¬ HasTask n d.history
  now : ∃ d, j.durable = some d ∧ Numbered d.history ∧
    (generation < d.generation ∨ generation = d.generation ∧ Spent n d.history)

theorem AfterDrop.step {o : Orchestrator} {generation : Nat} {before : List Saved} {j' : Journal}
    (h : j.AfterDrop n generation before) (hs : Journal.Step o leavesNoGaps j j') :
    j'.AfterDrop n generation before := by
  obtain ⟨later, hsaves, hlater⟩ := h.later
  obtain ⟨d, hd, hn, hnow⟩ := h.now
  obtain ⟨d', hd', hn'⟩ := isNumbered_step ⟨d, hd, hn⟩ hs
  obtain hsame | ⟨d₁, hwrite, hadv⟩ := hs.advances leavesNoGaps_noStallNew hd
  · have hdurable : j'.durable = some d := (congrArg List.head? hsame).trans hd
    exact ⟨⟨later, hsame.trans hsaves, hlater⟩, d, hdurable, hn, hnow⟩
  · have hdurable : j'.durable = some d₁ := congrArg List.head? hwrite
    cases hd'.symm.trans hdurable
    have hnow' : generation < d'.generation ∨ generation = d'.generation ∧ Spent n d'.history := by
      rcases hnow with hlt | ⟨heq, hspent⟩ <;> rcases hadv with hlt' | ⟨heq', hp⟩
      · exact .inl (by omega)
      · exact .inl (by omega)
      · exact .inl (by omega)
      · exact .inr ⟨by omega, hspent.mono hp⟩
    refine ⟨⟨d' :: later, by rw [hwrite, hsaves, cons_append], ?_⟩, d', hd', hn', hnow'⟩
    refine forall_mem_cons.2 ⟨fun hgen => ?_, hlater⟩
    rcases hnow' with hlt | ⟨-, hspent⟩
    · omega
    · exact hspent.not_hasTask hn'

theorem isNumbered_created (h : j.Created) : j.IsNumbered := by
  obtain ⟨start, generation, hs, -⟩ := h.saves
  exact ⟨_, by rw [durable, hs]; rfl, numbered_nil⟩

end Journal

/-! ## Dropped results -/

section Drop
variable {B : Type} {o : Orchestrator} {a a' : Actor B} {s : State B} {d : Saved} {execID : String} {env : Env}

/-- What is dropped as passed has an id that is spent. -/
theorem spent_of_passed (hk : Knows a s d) (hn : Numbered d.history) (hres : activityResolution e = some (n, execID))
    (hunsched : s.taskScheduledFor e = none) (hpassed : passedID s.history n = true) : Spent n d.history := by
  rcases Int.lt_or_le n 0 with hneg | h0
  · exact .inl hneg
  · refine .inr ?_
    obtain ⟨x, hx, hle⟩ : ∃ x ∈ s.history, n ≤ x.eventId := by simpa [passedID] using hpassed
    have hx' : x ∈ d.history := hk.history.subset hx
    obtain ⟨y, hy, hyid, -⟩ := mem_stepIds.1
      (hn.closed x.eventId (mem_stepIds.2 ⟨x, hx', rfl, by omega⟩) n h0 hle)
    have hfind : (s.findHistoryEventByID n).bind HistoryEvent.getTaskScheduled = none := by
      simpa [State.taskScheduledFor, State.scheduledFor, hres] using hunsched
    cases hf : s.findHistoryEventByID n with
    | some z =>
      have hz : z ∈ s.history := mem_of_find?_eq_some hf
      have hzid : z.eventId = n := by simpa using find?_some hf
      exact ⟨z, hk.history.subset hz, hzid, by simpa [hf] using hfind⟩
    | none =>
      -- the event of that id is what a lost tombstone added
      refine ⟨y, hy, hyid, ?_⟩
      have hnot : y ∉ s.history := by
        intro hmem
        have := find?_eq_none.1 hf y hmem
        simp [hyid] at this
      obtain ⟨markers, hmarkers⟩ := hk.history
      have hmem : y ∈ d.history.drop s.history.length := by
        rw [← hmarkers] at hy ⊢
        rw [drop_left]
        exact (mem_append.1 hy).resolve_left hnot
      exact Journal.not_task_of_completed (completed_of_isTamperMarker (hk.marked y hmem))

/-- An activity result for a task id is acknowledged and dropped, since history has passed the id
without scheduling a task. -/
structure Orchestrator.DropsAsPassed (o : Orchestrator) (env : Env) (a : Actor B) (e : HistoryEvent)
    (sender : CompletionSender) (canFold : Bool) (n : Int) (s : State B) : Prop where
  load : (o.loadInternalState env a).1 = .ok (some s)
  turnedAway : o.turnedAway e s sender = none
  recordedAlready : o.recordedAlready e s = none
  resolution : ∃ execID, activityResolution e = some (n, execID)
  unscheduled : s.taskScheduledFor e = none
  passed : passedID s.history n = true
  acknowledged : (o.admitEvent env a e sender canFold).1 = .ok none

theorem Orchestrator.DropsAsPassed.admitEvent {sender : CompletionSender} {canFold : Bool}
    (h : o.DropsAsPassed env a e sender canFold n s) :
    (o.admitEvent env a e sender canFold).2 = (o.loadInternalState env a).2 := by
  obtain ⟨execID, hres⟩ := h.resolution
  have hdrop : o.classifyEvent (o.loadInternalState env a).2.held e s sender canFold =
      .drop s!"this generation passed id {n} without scheduling a task" false := by
    simp [Orchestrator.classifyEvent, h.turnedAway, h.recordedAlready, hres, h.unscheduled, activityDrop, h.passed]
  have hack := h.acknowledged
  have hload := h.load
  rcases hl : o.loadInternalState env a with ⟨r, b⟩
  rw [hl] at hload hdrop
  subst hload
  simp only [Orchestrator.admitEvent, hl, hdrop] at hack ⊢
  split at hack
  · next hfresh => simp [hfresh]
  · next hfresh => 
    cases hc : env.confirm <;> simp_all

/-- A result that is dropped because history has passed its id is of a task that no later save of
the generation schedules. -/
theorem dropped_task_never_scheduled {sender : CompletionSender} {canFold : Bool} (ha : a.Reached o leavesNoGaps)
    (hdrop : o.DropsAsPassed env a e sender canFold n s)
    (hrun : (o.admitEvent env a e sender canFold).2.LeadsTo o leavesNoGaps a') :
    ∃ later, a'.saves = later ++ (o.admitEvent env a e sender canFold).2.saves ∧
      ∀ d ∈ later, d.generation = s.generation → ¬ HasTask n d.history := by
  rw [hdrop.admitEvent] at hrun ⊢
  rcases hl : o.loadInternalState env a with ⟨r, b⟩
  have hload := hdrop.load
  rw [hl] at hrun hload
  obtain ⟨hj, hg⟩ := ha.journal
  obtain ⟨hsim, hcached⟩ := load_sim hg hl
  obtain ⟨d, hk⟩ := hsim.good.cached s (hcached s hload)
  -- the record that the verdict was given on
  obtain ⟨d', hd', hn⟩ : b.journal.IsNumbered := Lib.Runs.Reachable.invariant Journal.IsNumbered
    (fun _ => Journal.isNumbered_created) (fun _ _ => Journal.isNumbered_step) (hj.trans hsim.run)
  cases hk.durable.symm.trans hd'
  obtain ⟨execID, hres⟩ := hdrop.resolution
  have hspent := spent_of_passed hk hn hres hdrop.unscheduled hdrop.passed
  have hstart : b.journal.AfterDrop n s.generation b.saves :=
    ⟨⟨[], rfl, by simp⟩, d, hk.durable, hn, .inr ⟨hk.generation, hspent⟩⟩
  have hafter : ∀ j, Relation.ReflTransGen (Journal.Step o leavesNoGaps) b.journal j →
      j.AfterDrop n s.generation b.saves := by
    intro j hj
    induction hj with
    | refl => exact hstart
    | tail _ hs ih => exact ih.step hs
  exact (hafter _ (hrun.journal hsim.good).1).later

end Drop

/-! ## An id withheld below one that is kept -/

def exampleTimer (id : Int) : HistoryEvent := exampleEvent id (.timerCreated ⟨none, none, none⟩)

theorem numbered_timer_task : Numbered [exampleStart, exampleTimer 0, exampleTask 1] := by
  have hids : stepIds [exampleStart, exampleTimer 0, exampleTask 1] = [0, 1] := by decide
  refine ⟨hids ▸ by decide, ?_, by decide⟩
  rw [hids]
  intro id hid m h0 hle
  have hid' : id = 0 ∨ id = 1 := by simpa using hid
  have hm : m = 0 ∨ m = 1 := by omega
  simpa using hm

/-- A timer took the id of the task that the result is for. -/
theorem dropped_task_never_scheduled_timer :
    let o := exampleHost false
    let started := o.step exampleActor
      (.turn (exampleTurn .committed [exampleStart, exampleTimer 0, exampleTask 1] .ok))
    let dropped := (o.admitEvent (exampleEnv .committed) started (exampleResult 0) ⟨"", "", ""⟩ false).2
    let resumed := o.step dropped (deliverResult 1 false)
    (resumed.saves.length = 3 ∧ dropped.saves.length = 2) ∧
      ∃ later, resumed.saves = later ++ dropped.saves ∧ ∀ d ∈ later, d.generation = 0 → ¬ HasTask 0 d.history := by
  intro o started dropped resumed
  have hreached : started.Reached o leavesNoGaps := by
    refine (exampleActor_reached o leavesNoGaps).turn _ ?_
    intro s hs
    cases hs
    refine of_finished rfl ⟨⟨fun _ => numbered_timer_task, by decide⟩, fun _ => rfl, ?_⟩
    intro failedEventIDs remote hd
    cases hd
  refine ⟨by decide, dropped_task_never_scheduled hreached ⟨rfl, rfl, rfl, ⟨_, rfl⟩, rfl, rfl, rfl⟩ ?_⟩
  exact .single ⟨deliverResult 1 false, fun _ _ => trivial, rfl⟩

/-- The dispatch of task 0 fails and task 1 is saved; a result for task 0 is acknowledged and
dropped, and the next turn schedules task 0. -/
theorem dropped_task_scheduled_again :
    let o := exampleHost false
    let saved := o.step exampleActor (.turn
      (exampleTurn .committed [exampleStart, exampleTask 0, exampleTask 1] (.failed [0] true)))
    let dropped := o.admitEvent (exampleEnv .committed) saved (exampleResult 0) ⟨"", "", ""⟩ false
    let rerun := o.step dropped.2 (.turn (exampleTurn .committed [exampleTask 0] .ok))
    (∃ s, o.DropsAsPassed (exampleEnv .committed) saved (exampleResult 0) ⟨"", "", ""⟩ false 0 s ∧ s.generation = 0) ∧
      saved.durable = some ⟨[exampleStart], [exampleStart, exampleTask 1], 0⟩ ∧
      rerun.durable = some ⟨[], [exampleStart, exampleTask 1, exampleTask 0], 0⟩ ∧
      HasTask 0 [exampleStart, exampleTask 1, exampleTask 0] := by
  refine ⟨⟨_, ⟨rfl, rfl, rfl, ⟨_, rfl⟩, rfl, rfl, rfl⟩, rfl⟩, by decide, by decide, exampleTask 0, ?_, rfl, rfl⟩
  simp

end Dapr.Workflow
