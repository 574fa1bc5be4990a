import Mathlib.Order.Lattice
import Mathlib.Data.List.Basic
/-!
# The best of a set

The best element has the greatest score, and is the least of those with that score. There is one at
most, and it is the best of any part of the set that it belongs to. A scan that keeps the first
element of the greatest score finds the best of a sorted list.
-/

namespace Lib.Ranking

open List

variable {α β : Type} [LinearOrder α] [LinearOrder β] {score : α → β} {S S' : α → Prop} {a b x : α}

/-- The least of the elements with the greatest score. -/
structure Best (score : α → β) (S : α → Prop) (a : α) : Prop where
  mem : S a
  greatest : ∀ b, S b → score b ≤ score a
  least : ∀ b, S b → score b = score a → a ≤ b

theorem Best.unique (ha : Best score S a) (hb : Best score S b) : a = b := by
  have hscore : score a = score b := le_antisymm (hb.greatest a ha.mem) (ha.greatest b hb.mem)
  exact le_antisymm (ha.least b hb.mem hscore.symm) (hb.least a ha.mem hscore)

theorem Best.restrict (ha : Best score S a) (hsub : ∀ b, S' b → S b) (hmem : S' a) : Best score S' a :=
  ⟨hmem, fun b hb => ha.greatest b (hsub b hb), fun b hb => ha.least b (hsub b hb)⟩

theorem Best.congr (ha : Best score S a) (h : ∀ b, S' b ↔ S b) : Best score S' a :=
  ha.restrict (fun b => (h b).1) ((h a).2 ha.mem)

theorem Best.add (ha : Best score S a) (hb : Best score S' b) (h : ∀ c, S' c ↔ c = x ∨ S c) : b = a ∨ b = x := by
  rcases (h b).1 hb.mem with rfl | hmem
  · exact .inr rfl
  · exact .inl ((hb.restrict (fun c hc => (h c).2 (.inr hc)) hmem).unique ha)

/-! ## A scan -/

/-- Keep the first element of the greatest score. -/
def scan (score : α → β) (a : α) (l : List α) : α := l.foldl (fun a b => if score a < score b then b else a) a

theorem best_scan {l : List α} (h : (a :: l).Pairwise (· < ·)) : Best score (· ∈ a :: l) (scan score a l) := by
  -- what has been scanned: its best so far, which is less than all that follows
  suffices hscan : ∀ (l done : List α) (a : α), Best score (· ∈ done) a → (∀ b ∈ l, ∀ c ∈ done, c < b) →
      l.Pairwise (· < ·) → Best score (· ∈ done ++ l) (scan score a l) by
    obtain ⟨hlt, hl⟩ := pairwise_cons.1 h
    refine hscan l [a] a ⟨mem_singleton_self a, ?_, ?_⟩ ?_ hl
    · intro b hb
      rw [mem_singleton.1 hb]
    · intro b hb _
      rw [mem_singleton.1 hb]
    · intro b hb c hc
      rw [mem_singleton.1 hc]
      exact hlt b hb
  intro l
  induction l with
  | nil =>
    intro done a ha _ _
    simpa [scan] using ha
  | cons b l ih =>
    intro done a ha hlt hl
    obtain ⟨hbl, hl⟩ := pairwise_cons.1 hl
    have hnext : Best score (· ∈ done ++ [b]) (if score a < score b then b else a) := by
      split
      · next hless =>
        refine ⟨by simp, fun c hc => ?_, fun c hc heq => ?_⟩
        · rcases mem_append.1 hc with hc | hc
          · exact le_of_lt (lt_of_le_of_lt (ha.greatest c hc) hless)
          · rw [mem_singleton.1 hc]
        · rcases mem_append.1 hc with hc | hc
          · exact absurd heq (ne_of_lt (lt_of_le_of_lt (ha.greatest c hc) hless))
          · rw [mem_singleton.1 hc]
      · next hnot =>
        refine ⟨mem_append_left _ ha.mem, fun c hc => ?_, fun c hc heq => ?_⟩
        · rcases mem_append.1 hc with hc | hc
          · exact ha.greatest c hc
          · rw [mem_singleton.1 hc]
            exact le_of_not_gt hnot
        · rcases mem_append.1 hc with hc | hc
          · exact ha.least c hc heq
          · rw [mem_singleton.1 hc]
            exact le_of_lt (hlt b mem_cons_self a ha.mem)
    have hrest := ih (done ++ [b]) _ hnext (fun c hc d hd => ?_) hl
    · rwa [append_assoc] at hrest
    · rcases mem_append.1 hd with hd | hd
      · exact hlt c (mem_cons_of_mem _ hc) d hd
      · rw [mem_singleton.1 hd]
        exact hbl c hc

end Lib.Ranking
