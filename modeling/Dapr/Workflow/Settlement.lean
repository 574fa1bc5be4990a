import Dapr.Workflow.HeldSteps
/-!
# Held completions are settled once, and truthfully

The sender of a held completion waits until its channel is closed, and does not send again if
it reads no error. So a channel must be closed once, and without an error only if the result
is safe or of no use any more.
-/

namespace Dapr.Workflow

open List

/-! ## The engine -/

/-- The engine adds each result that it is handed to the runtime state, unless the instance has
completed or the state resolves the step already. -/
def AddsResults (o : Orchestrator) (history : List HistoryEvent) (taken : List FoldEntry) (rs : EngineState) : Prop :=
  o.runtime.isCompleted history = false → rs.continuedAsNew = false →
    ∀ k ∈ stepKeys (taken.map FoldEntry.event), k ∈ stepKeys (history ++ rs.newEvents)

instance (o : Orchestrator) (history : List HistoryEvent) (taken : List FoldEntry) (rs : EngineState) :
    Decidable (AddsResults o history taken rs) :=
  inferInstanceAs (Decidable (_ → _))

/-- Turns have their results in the history. -/
def Conditions.AddsResults (C : Conditions) (o : Orchestrator) : Prop :=
  ∀ history inbox taken env rs, C.turn history inbox taken env → env.engine = .finished rs →
    Workflow.AddsResults o history taken rs

/-! ## What a sender may be told -/

/-- A completion that need not be sent again: the instance is in a later generation, or in its
own generation the instance completed, or its step was resolved in what was saved. -/
def Safe (o : Orchestrator) (saves : List Saved) (p : FoldEntry) : Prop :=
  ∃ d ∈ saves, p.gen < d.generation ∨ d.generation = p.gen ∧
    (o.runtime.isCompleted d.history = true ∨ ∃ k ∈ stepKeys (d.history ++ d.inbox), stepKey p.event = some k)

variable {o : Orchestrator} {saves : List Saved} {p : FoldEntry} {d : Saved} {C : Conditions} {j j' : Journal}

theorem Safe.cons (h : Safe o saves p) (d : Saved) : Safe o (d :: saves) p :=
  h.imp fun _ ⟨hmem, hd⟩ => ⟨mem_cons_of_mem _ hmem, hd⟩

theorem Scheduled.stepKey (h : Scheduled d p) :
    ∃ k, stepKey p.event = some k ∧ (p.gen = d.generation → isScheduled d.history k = true) := by
  obtain ⟨-, k, hk, htask, hs⟩ := h
  exact ⟨k, stepKey_of_resolves hk (by rw [htask]; decide), hs⟩

/-- The commit of a turn makes the completions it took safe. -/
theorem safe_of_commit {taken : List FoldEntry} (hp : p ∈ taken) (hs : Scheduled d p) (hgen : p.gen = d.generation)
    (hd : d ∈ saves) {rs : EngineState} (hadds : AddsResults o d.history taken rs)
    {filtered early : List HistoryEvent} {f : HistoryEvent → HistoryEvent} (hf : PinsStart f)
    (hstrip : stripUnmatchedResolutions d.history rs.newEvents
      (!rs.completed && !rs.continuedAsNew) = (filtered, early)) :
    Safe o (⟨persistable early, (if rs.continuedAsNew then [] else d.history) ++ filtered.map f,
      if rs.continuedAsNew then d.generation + 1 else d.generation⟩ :: saves) p := by
  cases hcan : rs.continuedAsNew with
  | true => exact ⟨_, mem_cons_self, .inl (by simp [hgen])⟩
  | false =>
    cases hdone : o.runtime.isCompleted d.history with
    | true => exact ⟨d, mem_cons_of_mem _ hd, .inr ⟨hgen.symm, .inl hdone⟩⟩
    | false =>
      obtain ⟨k, hk, hsched⟩ := hs.stepKey
      refine ⟨_, mem_cons_self, .inr ⟨by simp [hgen], .inr ⟨k, ?_, hk⟩⟩⟩
      have hmem := hadds hdone hcan k (mem_stepKeys.2 ⟨p.event, mem_map_of_mem hp, hk⟩)
      simp only [stepKeys_append, stepKeys_map_pinsStart hf, mem_append] at hmem ⊢
      rcases hmem with hmem | hmem
      · exact .inl (.inl hmem)
      · -- its task is scheduled, so the new resolution goes to history
        obtain ⟨x, hx, hxk⟩ := mem_stepKeys.1 hmem
        refine .inl (.inr (mem_stepKeys.2 ⟨x, ?_, hxk⟩))
        rw [filtered_eq hstrip, mem_filter]
        refine ⟨hx, ?_⟩
        simp only [isMatched, (resolves_of_stepKey hxk).1]
        exact isScheduled_mono (prefix_append _ _) (hsched hgen)

/-! ## Runs -/

theorem accounted_step (h : j.held.Accounted j.taken) (hs : Journal.Step o C j j') : j'.held.Accounted j'.taken := by
  cases hs with
  | hold => exact h.foldSubmit _ _
  | take hd htaken => exact (htaken ▸ h).foldTake _
  | ack | nack => exact h.settle _
  | flush htaken =>
    rw [htaken] at h ⊢
    exact h.foldFlush
  | _ => exact h

/-- Whoever was told that all is well may rest, and so may those a turn will tell. -/
structure Journal.Truthful (o : Orchestrator) (j : Journal) : Prop where
  memory : j.HoldsScheduled
  settled : ∀ x ∈ j.held.settled, x.err = none → Safe o j.saves x.entry
  committed : j.committed = true → ∀ p ∈ j.taken, Safe o j.saves p

/-- A save that commits nothing. -/
theorem Journal.Truthful.save (h : j.Truthful o) (hm : (j.save d).HoldsScheduled) : (j.save d).Truthful o where
  memory := hm
  settled := fun x hx hnone => (h.settled x hx hnone).cons d
  committed := fun hc p hp => (h.committed hc p hp).cons d

theorem Journal.Truthful.commit (h : j.Truthful o) (hm : (j.commit d).HoldsScheduled)
    (hsafe : ∀ p ∈ j.taken, Safe o (d :: j.saves) p) : (j.commit d).Truthful o where
  memory := hm
  settled := fun x hx hnone => (h.settled x hx hnone).cons d
  committed := fun _ => hsafe

/-- Entries that are settled, with an error or truly without one. -/
theorem Journal.Truthful.settle (h : j.Truthful o) (es : List FoldEntry) {err : Option FoldError}
    (hsafe : err = none → ∀ p ∈ es, Safe o j.saves p) :
    ∀ x ∈ (j.held.settle es err).settled, x.err = none → Safe o j.saves x.entry := by
  intro x hx hnone
  simp only [Held.settle, mem_append, mem_map] at hx
  rcases hx with hx | ⟨p, hp, rfl⟩
  · exact h.settled x hx hnone
  · exact hsafe hnone p hp

theorem truthful_step (hC : C.NoStallNew) (hadds : C.AddsResults o) (h : j.Truthful o) (hs : Journal.Step o C j j') :
    j'.Truthful o := by
  have hm := holdsScheduled_step hC h.memory hs
  cases hs with
  | hold hd htaken => exact ⟨hm, h.settled, fun _ p hp => by rw [htaken] at hp; cases hp⟩
  | @take d hd htaken =>
    refine ⟨hm, ?_, nofun⟩
    refine h.settle (j.held.pending.filter fun p => !decide (p.gen = d.generation)) ?_
    rintro - p hp
    -- a stale entry is of an earlier generation
    obtain ⟨hpend, hne⟩ := mem_filter.1 hp
    have hle := (h.memory.scheduled hd p (mem_append_right _ hpend)).gen
    have hne' : p.gen ≠ d.generation := by simpa using hne
    exact ⟨d, mem_of_head? hd, .inl (by omega)⟩
  | @move d inbox env ht hsize =>
    refine h.commit hm ?_
    intro p hp
    obtain ⟨k, hk, -⟩ := (h.memory.scheduled ht.durable p (mem_append_left _ hp)).stepKey
    refine ⟨_, mem_cons_self, .inr ⟨(ht.current p hp).symm, .inr ⟨k, ?_, hk⟩⟩⟩
    simp only [stepKeys_append, stepKeys_persistable, mem_append]
    exact .inr (.inr (mem_stepKeys.2 ⟨_, mem_map_of_mem hp, hk⟩))
  | @abandon d inbox old env rs hd hin =>
    refine h.commit hm ?_
    intro p hp
    have hle := (h.memory.scheduled hd p (mem_append_left _ hp)).gen
    exact ⟨_, mem_cons_self, .inl (Nat.lt_succ_of_le hle)⟩
  | enqueue | tombstone | unstartable | stall | stallNew | partialDispatch => exact h.save hm
  | @commit d inbox env rs filtered early f ht hsize hrs hstall hstrip hf =>
    refine h.commit hm ?_
    intro p hp
    have hsched := h.memory.scheduled ht.durable p (mem_append_left _ hp)
    exact safe_of_commit hp hsched (ht.current p hp) (mem_of_head? ht.durable) (hadds _ _ _ _ _ ht.cond hrs) hf
      hstrip
  | ack hc => exact ⟨hm, h.settle _ fun _ => h.committed hc, nofun⟩
  | nack => exact ⟨hm, h.settle _ nofun, nofun⟩
  | flush htaken => exact ⟨hm, h.settle _ nofun, fun _ p hp => by rw [htaken] at hp; cases hp⟩

theorem truthful_created (h : j.Created) : j.Truthful o where
  memory := holdsScheduled_created h
  settled := by simp [h.held, Held.empty]
  committed := by simp [h.taken]

/-- However completions are held, taken and retried, a channel is closed at most once, and not
while its entry is pending. If the engine keeps what it is handed and no turn that continued
as new is stalled, no sender is told that all is well unless its completion is safe. -/
theorem held_completions_settled {B : Type} {o : Orchestrator} {C : Conditions} {a : Actor B} (h : a.Reached o C) :
    (a.held.settled.map fun x => x.entry.token).Nodup ∧
      (∀ p ∈ a.held.pending, ∀ x ∈ a.held.settled, x.entry.token ≠ p.token) ∧
      (C.NoStallNew → C.AddsResults o → ∀ x ∈ a.held.settled, x.err = none → Safe o a.saves x.entry) := by
  have hacc : a.held.Accounted [] :=
    Lib.Runs.Reachable.invariant (fun j : Journal => j.held.Accounted j.taken)
      (fun j hj => by rw [hj.held, hj.taken]; exact Held.accounted_empty) (fun _ _ => accounted_step) h.journal.1
  refine ⟨hacc.closed_once, fun p hp x hx => hacc.pending_open hp hx, ?_⟩
  intro hC hadds
  have htrue : a.journal.Truthful o :=
    Lib.Runs.Reachable.invariant (Journal.Truthful o) (fun _ => truthful_created) (fun _ _ => truthful_step hC hadds)
      h.journal.1
  exact htrue.settled

/-! ## Two runs -/

/-- The engine keeps the results it is handed, and no turn that continued as new is stalled. -/
def engineKeeps (o : Orchestrator) : Conditions where
  admits _ _ := True
  admits_mono _ _ := trivial
  turn history _ taken env := ∀ rs, env.engine = .finished rs →
    AddsResults o history taken rs ∧ (rs.continuedAsNew = true → rs.stalled = none)

theorem engineKeeps_noStallNew (o : Orchestrator) : (engineKeeps o).NoStallNew :=
  fun _ _ _ _ rs h hrs => (h rs hrs).2

theorem engineKeeps_addsResults (o : Orchestrator) : (engineKeeps o).AddsResults o :=
  fun _ _ _ _ rs h hrs => (h rs hrs).1

def exampleScheduled : Actor Unit :=
  (exampleHost false).step exampleActor (.turn (exampleTurn .committed [exampleStart, exampleTask 0] .ok))

theorem exampleScheduled_reached : exampleScheduled.Reached (exampleHost false) (engineKeeps (exampleHost false)) := by
  apply (exampleActor_reached _ _).turn
  intro s hs
  cases hs
  exact of_finished rfl ⟨by decide, nofun⟩

/-- A held result is committed, and its sender told. -/
theorem held_completions_settled_run :
    let o := exampleHost false
    let held := o.step exampleScheduled (deliverResult 0 true)
    let resolved := o.step held (.turn (exampleTurn .committed [exampleResult 0] .ok))
    resolved.Reached o (engineKeeps o) ∧ resolved.held.settled = [⟨⟨0, exampleResult 0, 0⟩, none⟩] ∧
      Safe o resolved.saves ⟨0, exampleResult 0, 0⟩ := by
  intro o held resolved
  have hreached : resolved.Reached o (engineKeeps o) := by
    apply (exampleScheduled_reached.next (deliverResult 0 true) (fun _ _ => trivial)).turn
    intro s hs
    cases hs
    exact of_finished rfl ⟨by decide, nofun⟩
  exact ⟨hreached, rfl, (held_completions_settled hreached).2.2 (engineKeeps_noStallNew o) (engineKeeps_addsResults o)
    _ (.head _) rfl⟩

/-- A failure of the same task. -/
def exampleFailure (id : Int) : HistoryEvent := exampleEvent (-1) (.taskFailed ⟨id, "", none, none, []⟩)

/-- Two results of one task arrive, one is held and one is put into the inbox. The turn records
the latter, and both senders are told that all is well. -/
theorem duplicate_told_unsaved :
    ∃ a : Actor Unit, a.Reached (exampleHost false) (engineKeeps (exampleHost false)) ∧
      ∃ x ∈ a.held.settled, x.err = none ∧
        ∀ d ∈ a.saves, x.entry.event ∉ d.history ++ d.inbox ∧ d.generation = x.entry.gen := by
  have hheld := exampleScheduled_reached.next (deliverResult 0 true) (fun _ _ => trivial)
  have hboth := hheld.next (.deliver (exampleEnv .committed) (.method "app" "" "" false) (exampleFailure 0))
    (fun _ _ => trivial)
  have hcommit := hboth.turn (exampleTurn .committed [exampleFailure 0] .ok) (by
    intro s hs
    cases hs
    exact of_finished rfl ⟨by decide, nofun⟩)
  exact ⟨_, hcommit, _, .head _, rfl, by decide⟩

end Dapr.Workflow
