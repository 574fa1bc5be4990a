import Dapr.Workflow.Resolutions
/-!
# The steps of held completions

A completion is held only if its task is scheduled in history, and it is worth something as
long as the instance is in the generation it was submitted in. Along every run of the journal,
the tasks of the completions in memory stay scheduled in the saved history.
-/

namespace Dapr.Workflow

/-- A held completion of the current generation resolves a task that the saved history schedules;
there are none of later generations. -/
structure Scheduled (d : Saved) (p : FoldEntry) : Prop where
  gen : p.gen ≤ d.generation
  task : ∃ k, resolves p.event = some k ∧ k.kind = .task ∧ (p.gen = d.generation → isScheduled d.history k = true)

variable {d d' : Saved} {j j' : Journal}

theorem Scheduled.mono {p : FoldEntry} (h : Scheduled d p)
    (hd : d.generation < d'.generation ∨ d.generation = d'.generation ∧ d.history <+: d'.history) : Scheduled d' p := by
  obtain ⟨hgen, k, hk, htask, hs⟩ := h
  rcases hd with hlt | ⟨heq, hp⟩
  · exact ⟨by omega, k, hk, htask, fun h => by omega⟩
  · exact ⟨heq ▸ hgen, k, hk, htask, fun h => isScheduled_mono hp (hs (h.trans heq.symm))⟩

/-- The completions in memory are of steps that the saved history schedules. -/
def Journal.HoldsScheduled (j : Journal) : Prop :=
  ∃ d, j.durable = some d ∧ ∀ p ∈ j.taken ++ j.held.pending, Scheduled d p

theorem Journal.HoldsScheduled.scheduled (h : j.HoldsScheduled) (hd : j.durable = some d) :
    ∀ p ∈ j.taken ++ j.held.pending, Scheduled d p := by
  obtain ⟨d₀, hd₀, hp⟩ := h
  cases hd.symm.trans hd₀
  exact hp

/-- No turn that continued as new is stalled by the engine: that would drop the history of the
generation and keep its number. -/
def Conditions.NoStallNew (C : Conditions) : Prop :=
  ∀ history inbox taken env rs, C.turn history inbox taken env → env.engine = .finished rs →
    rs.continuedAsNew = true → rs.stalled = none

section Step
variable {o : Orchestrator} {C : Conditions}

/-- A step saves nothing, or a record of a later generation, or one of the same with more history. -/
theorem Journal.Step.advances (hC : C.NoStallNew) (hd : j.durable = some d) (hs : Journal.Step o C j j') :
    j'.saves = j.saves ∨ ∃ d', j'.saves = d' :: j.saves ∧
      (d.generation < d'.generation ∨ d.generation = d'.generation ∧ d.history <+: d'.history) := by
  have heq : ∀ {d₀}, j.durable = some d₀ → d₀ = d := fun hd₀ => Option.some.inj (hd₀.symm.trans hd)
  cases hs with
  | enqueue hd' =>
    obtain rfl := heq hd'
    exact .inr ⟨_, rfl, .inr ⟨rfl, List.prefix_refl _⟩⟩
  | tombstone hd' | unstartable hd' =>
    obtain rfl := heq hd'
    exact .inr ⟨_, rfl, .inr ⟨rfl, List.prefix_append _ _⟩⟩
  | move ht =>
    obtain rfl := heq ht.durable
    exact .inr ⟨_, rfl, .inr ⟨rfl, List.prefix_refl _⟩⟩
  | stall hd' =>
    obtain rfl := heq hd'
    exact .inr ⟨_, rfl, .inr ⟨rfl, List.prefix_append _ _⟩⟩
  | stallNew ht hsize hrs hnew hev hgen =>
    obtain rfl := heq ht.durable
    rcases hgen with ⟨hst, -⟩ | ⟨-, -, rfl⟩
    · rw [hC _ _ _ _ _ ht.cond hrs hnew] at hst
      cases hst
    · exact .inr ⟨_, rfl, .inl (Nat.lt_succ_self _)⟩
  | abandon hd' =>
    obtain rfl := heq hd'
    exact .inr ⟨_, rfl, .inl (Nat.lt_succ_self _)⟩
  | @partialDispatch d' inbox env rs filtered early f withheld generation failed remote ht hsize hrs hstall hfirst
      hstart hstrip hf hgen =>
    obtain rfl := heq ht.durable
    refine .inr ⟨_, rfl, ?_⟩
    cases hcan : rs.continuedAsNew with
    | true => exact .inl (by simp [hgen, hcan])
    | false => exact .inr ⟨by simp [hgen, hcan], by rw [hfirst]; exact List.nil_prefix⟩
  | @commit d' inbox env rs filtered early f ht hsize hrs hstall hstrip hf =>
    obtain rfl := heq ht.durable
    refine .inr ⟨_, rfl, ?_⟩
    cases hcan : rs.continuedAsNew with
    | true => exact .inl (by simp)
    | false => exact .inr ⟨by simp, by simp⟩
  | hold | take | ack | nack | flush => exact .inl rfl

/-- What is in memory after a step was there before, or is a result that is held now. -/
theorem Journal.Step.memory (hs : Journal.Step o C j j') {p : FoldEntry} (hp : p ∈ j'.taken ++ j'.held.pending) :
    p ∈ j.taken ++ j.held.pending ∨ ∃ d e k, j.durable = some d ∧ j'.saves = j.saves ∧ C.admits d.history e ∧
      Vetted o d.history e p.event ∧ p.gen = d.generation ∧ resolves e = some k ∧ k.kind = .task ∧
      isScheduled d.history k = true := by
  cases hs with
  | @hold d e stored k hd _ hadm hk htask hsched _ hv =>
    have hp' : p ∈ j.taken ++ j.held.pending ∨ p = (j.held.foldSubmit stored d.generation).1 := by
      simpa [Held.foldSubmit, or_assoc] using hp
    rcases hp' with hold | rfl
    · exact .inl hold
    · exact .inr ⟨d, e, k, hd, rfl, hadm, hv, rfl, hk, htask, hsched⟩
  | take hd htaken =>
    rw [htaken]
    exact .inl ((Held.foldTake_sublist _ _).subset hp)
  | ack | nack => exact .inl (List.mem_append_right _ hp)
  | flush ht => simp [Held.foldFlush, ht] at hp
  | _ => exact .inl hp

theorem holdsScheduled_step (hC : C.NoStallNew) (h : j.HoldsScheduled) (hs : Journal.Step o C j j') :
    j'.HoldsScheduled := by
  obtain ⟨d, hd, hold⟩ := h
  obtain hsame | ⟨d', hsaves, hadv⟩ := hs.advances hC hd
  · refine ⟨d, (congrArg List.head? hsame).trans hd, fun p hp => ?_⟩
    rcases hs.memory hp with hp | ⟨d₀, e, k, hd₀, -, -, hv, hgen, hk, htask, hsched⟩
    · exact hold p hp
    · cases hd.symm.trans hd₀
      exact ⟨Nat.le_of_eq hgen, k, hv.resolves_eq.trans hk, htask, fun _ => hsched⟩
  · refine ⟨d', congrArg List.head? hsaves, fun p hp => ?_⟩
    rcases hs.memory hp with hp | ⟨-, -, -, -, hsame, -⟩
    · exact (hold p hp).mono hadv
    · -- a step that holds a result saves nothing
      exact absurd (hsaves.symm.trans hsame) (List.cons_ne_self _ _)

end Step

theorem holdsScheduled_created (h : j.Created) : j.HoldsScheduled := by
  obtain ⟨start, generation, hs, -⟩ := h.saves
  exact ⟨_, by rw [Journal.durable, hs]; rfl, by simp [h.taken, h.held, Held.empty]⟩

end Dapr.Workflow
