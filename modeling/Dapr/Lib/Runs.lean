import Mathlib.Logic.Relation
/-!
# Runs of a transition system

A system is given by its start states and its steps; a property of every run is proved by
showing that it holds at the start and is kept by each step. A run written down as a list
of labels, for a system whose steps compute, is one such run.
-/

namespace Lib.Runs

variable {σ ℓ : Type}

/-- The states that some run from a start state reaches. -/
inductive Reachable (start : σ → Prop) (step : σ → σ → Prop) : σ → Prop where
  | start {s : σ} : start s → Reachable start step s
  | step {s s' : σ} : Reachable start step s → step s s' → Reachable start step s'

variable {start : σ → Prop} {step : σ → σ → Prop}

/-- What holds at the start and is kept by every step holds in every state reached. -/
theorem Reachable.invariant (Inv : σ → Prop) (h0 : ∀ s, start s → Inv s)
    (hstep : ∀ s s', Inv s → step s s' → Inv s') {s : σ} (h : Reachable start step s) : Inv s := by
  induction h with
  | start hs => exact h0 _ hs
  | step _ hs ih => exact hstep _ _ ih hs

theorem Reachable.trans {s s' : σ} (h : Reachable start step s) (hs : Relation.ReflTransGen step s s') :
    Reachable start step s' := by
  induction hs with
  | refl => exact h
  | tail _ hs ih => exact ih.step hs

/-! ## Simulation -/

/-- A system is simulated by a coarser one when each of its steps shows as a run of the other.
What the proof of that knows of the states, `Good`, is kept along. -/
theorem Reachable.simulated {τ : Type} {start' : τ → Prop} {step' : τ → τ → Prop} (view : σ → τ) (Good : σ → Prop)
    (h0 : ∀ s, start s → start' (view s) ∧ Good s)
    (hstep : ∀ s s', Good s → step s s' → Relation.ReflTransGen step' (view s) (view s') ∧ Good s') {s : σ}
    (h : Reachable start step s) : Reachable start' step' (view s) ∧ Good s := by
  induction h with
  | start hs =>
    obtain ⟨hv, hg⟩ := h0 _ hs
    exact ⟨.start hv, hg⟩
  | step _ hs ih =>
    obtain ⟨hr, hg⟩ := hstep _ _ ih.2 hs
    exact ⟨ih.1.trans hr, hg⟩

/-! ## Runs that compute -/

/-- Take the labelled steps in order; `none` when one of them is not possible. -/
def runFrom (next : σ → ℓ → Option σ) : σ → List ℓ → Option σ
  | s, [] => some s
  | s, l :: ls => (next s l).bind fun s' => runFrom next s' ls

/-- A step that some label computes, taken where the label is allowed. -/
def Steps (ok : σ → ℓ → Prop) (next : σ → ℓ → Option σ) (s s' : σ) : Prop := ∃ l, ok s l ∧ next s l = some s'

variable {next : σ → ℓ → Option σ} {s s' : σ} {ls : List ℓ} {ok : σ → ℓ → Prop}

/-- A step with a condition is taken under it. -/
theorem of_guard {p : Prop} [Decidable p] (h : (if p then some s else none) = some s') : p ∧ s = s' := by
  simpa using h

/-- A run whose steps are all steps of the system reaches what the system reaches. -/
theorem reachable_of_next (h : Reachable start step s) (hstep : ∀ l ∈ ls, ∀ s s', next s l = some s' → step s s')
    (hr : runFrom next s ls = some s') : Reachable start step s' := by
  induction ls generalizing s with
  | nil => rw [runFrom, Option.some.injEq] at hr; exact hr ▸ h
  | cons l ls ih =>
    rw [runFrom, Option.bind_eq_some_iff] at hr
    obtain ⟨s1, h1, hr⟩ := hr
    obtain ⟨hl, hrest⟩ := List.forall_mem_cons.1 hstep
    exact ih (h.step (hl s s1 h1)) hrest hr

theorem reachable_of_runFrom (h : Reachable start (Steps ok next) s) (hok : ∀ l ∈ ls, ∀ s, ok s l)
    (hr : runFrom next s ls = some s') : Reachable start (Steps ok next) s' :=
  reachable_of_next h (fun l hl s _ hs => ⟨l, hok l hl s, hs⟩) hr

/-- As long as some step leads to the goal or closer to it, some run leads to the goal. -/
theorem exists_runFrom {P Q : σ → Prop} (μ : σ → Nat)
    (h : ∀ s, P s → ∃ l s', next s l = some s' ∧ (Q s' ∨ P s' ∧ μ s' < μ s)) (hs : P s) :
    ∃ ls s', runFrom next s ls = some s' ∧ Q s' := by
  induction hn : μ s using Nat.strongRecOn generalizing s with
  | ind n ih =>
    obtain ⟨l, s', hstep, hgoal⟩ := h s hs
    rcases hgoal with hq | ⟨hp, hlt⟩
    · exact ⟨[l], s', by simp [runFrom, hstep], hq⟩
    · obtain ⟨ls, s'', hrun, hq⟩ := ih (μ s') (hn ▸ hlt) hp rfl
      exact ⟨l :: ls, s'', by simp [runFrom, hstep, hrun], hq⟩

/-- The step of a label, where the label is allowed. -/
def guarded (ok : σ → ℓ → Prop) [∀ s l, Decidable (ok s l)] (next : σ → ℓ → Option σ) (s : σ) (l : ℓ) : Option σ :=
  if ok s l then next s l else none

theorem guarded_eq_some [∀ s l, Decidable (ok s l)] {l : ℓ} :
    guarded ok next s l = some s' ↔ ok s l ∧ next s l = some s' := by
  simp [guarded]

/-- A run that checks each of its steps is a run. -/
theorem runFrom_of_guarded [∀ s l, Decidable (ok s l)] (hr : runFrom (guarded ok next) s ls = some s') :
    runFrom next s ls = some s' := by
  induction ls generalizing s with
  | nil => exact hr
  | cons l ls ih =>
    rw [runFrom, Option.bind_eq_some_iff] at hr ⊢
    obtain ⟨s1, h1, hr⟩ := hr
    exact ⟨s1, (guarded_eq_some.1 h1).2, ih hr⟩

/-- A run that checks each of its steps reaches what such steps reach. -/
theorem reachable_of_guarded [∀ s l, Decidable (ok s l)] (h : Reachable start (Steps ok next) s)
    (hr : runFrom (guarded ok next) s ls = some s') : Reachable start (Steps ok next) s' :=
  reachable_of_next h (fun l _ _ _ hs => ⟨l, guarded_eq_some.1 hs⟩) hr

/-! ## Lists that steps extend -/

section Lists
variable {α : Type} {P : α → Prop} {R : α → α → Prop} {xs : List α} {x : α}

theorem forall_mem_concat (h : ∀ y ∈ xs, P y) (hx : P x) : ∀ y ∈ xs ++ [x], P y :=
  List.forall_mem_append.2 ⟨h, List.forall_mem_singleton.2 hx⟩

theorem forall_mem_set {i : Nat} (h : ∀ y ∈ xs, P y) (hx : P x) : ∀ y ∈ xs.set i x, P y := by
  intro y hy
  rcases List.mem_or_eq_of_mem_set hy with hold | rfl
  · exact h y hold
  · exact hx

theorem pairwise_concat (h : xs.Pairwise R) (hx : ∀ y ∈ xs, R y x) : (xs ++ [x]).Pairwise R :=
  List.pairwise_append.2 ⟨h, List.pairwise_singleton _ _, fun y hy => List.forall_mem_singleton.2 (hx y hy)⟩

end Lists

end Lib.Runs
