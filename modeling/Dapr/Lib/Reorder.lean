import Mathlib.Data.List.Nodup
import Mathlib.Data.List.Perm.Basic
/-!
# Moving elements of a list to later places

Positions of a list are told where to go: `target i` is the later position behind which the element
at `i` is to stand, or nothing if it stays. What an element moves behind stays itself. `order` is the
list of the positions in the order that results: each position that stays, followed by those that
move behind it.
-/

namespace Lib.Reorder

open List

/-- Moves of the first `n` positions. -/
structure Moves (n : Nat) where
  target : Nat → Option Nat
  later : ∀ {i j}, target i = some j → i < j
  within : ∀ {i j}, target i = some j → j < n
  stays : ∀ {i j}, target i = some j → target j = none

namespace Moves

variable {n : Nat} (m : Moves n)

/-- The positions that move behind `j`. -/
def movedTo (j : Nat) : List Nat := (range n).filter fun i => m.target i = some j

def block (i : Nat) : List Nat := if m.target i = none then i :: m.movedTo i else []

def order : List Nat := (range n).flatMap m.block

/-- The position in whose block `i` stands. -/
def slot (i : Nat) : Nat := (m.target i).getD i

variable {m} {i j x y : Nat}

theorem mem_movedTo : i ∈ m.movedTo j ↔ m.target i = some j := by
  unfold movedTo
  rw [mem_filter, mem_range, decide_eq_true_eq]
  constructor
  · exact And.right
  · intro h
    exact ⟨Nat.lt_trans (m.later h) (m.within h), h⟩

/-- What moves behind `j` stood before it. -/
theorem movedTo_eq (hj : j ≤ n) : m.movedTo j = (range j).filter fun i => m.target i = some j := by
  have hcut : ∀ d, (range (j + d)).filter (fun i => m.target i = some j) =
      (range j).filter fun i => m.target i = some j := by
    intro d
    induction d with
    | zero => rfl
    | succ d ih =>
      have hlast : ¬m.target (j + d) = some j := fun h => absurd (m.later h) (by omega)
      rw [← Nat.add_assoc, range_succ, filter_append, ih]
      simp [hlast]
  have hrange := hcut (n - j)
  rwa [Nat.add_sub_cancel' hj] at hrange

theorem mem_block : x ∈ m.block i ↔ m.target i = none ∧ (x = i ∨ m.target x = some i) := by
  unfold block
  split
  · next h => simp [h, mem_movedTo]
  · next h => simp [h]

theorem slot_of_mem_block (h : x ∈ m.block i) : m.slot x = i := by
  obtain ⟨hi, rfl | hx⟩ := mem_block.1 h
  · simp [slot, hi]
  · simp [slot, hx]

theorem mem_order : x ∈ m.order ↔ x < n := by
  unfold order
  rw [mem_flatMap]
  constructor
  · rintro ⟨i, hi, hx⟩
    obtain ⟨-, rfl | hx⟩ := mem_block.1 hx
    · exact mem_range.1 hi
    · exact Nat.lt_trans (m.later hx) (m.within hx)
  · intro hx
    cases ht : m.target x with
    | none => exact ⟨x, mem_range.2 hx, mem_block.2 ⟨ht, .inl rfl⟩⟩
    | some j => exact ⟨j, mem_range.2 (m.within ht), mem_block.2 ⟨m.stays ht, .inr ht⟩⟩

theorem nodup_block (i : Nat) : (m.block i).Nodup := by
  unfold block
  split
  · next hi =>
    refine nodup_cons.2 ⟨?_, nodup_range.filter _⟩
    rw [mem_movedTo, hi]
    exact Option.some_ne_none i ∘ Eq.symm
  · exact nodup_nil

theorem nodup_order : m.order.Nodup := by
  refine nodup_flatMap.2 ⟨fun i _ => nodup_block i, ?_⟩
  refine nodup_range.imp fun {a b} hne => ?_
  intro x ha hb
  exact hne ((slot_of_mem_block ha).symm.trans (slot_of_mem_block hb))

theorem block_of_stays (h : m.target i = none) : m.block i = i :: m.movedTo i := if_pos h

theorem block_of_moves (h : m.target i = some j) : m.block i = [] := if_neg (by simp [h])

theorem order_perm : m.order.Perm (range n) :=
  (perm_ext_iff_of_nodup nodup_order nodup_range).2 fun x => by rw [mem_order, mem_range]

/-- Of two positions the earlier one in the new order is in an earlier block, or in the same one
where only the first stayed. -/
theorem order_pairwise :
    m.order.Pairwise fun x y => m.slot x < m.slot y ∨ m.slot x = m.slot y ∧ (m.target y).isSome := by
  refine pairwise_flatMap.2 ⟨fun i _ => ?_, ?_⟩
  · have hslot : ∀ y ∈ m.movedTo i, m.slot y = i ∧ (m.target y).isSome := fun y hy => by
      have ht := mem_movedTo.1 hy
      simp [slot, ht]
    unfold block
    split
    · next hi =>
      refine pairwise_cons.2 ⟨fun y hy => ?_, ?_⟩
      · have hself : m.slot i = i := by simp [slot, hi]
        exact .inr ⟨hself.trans (hslot y hy).1.symm, (hslot y hy).2⟩
      · refine pairwise_of_forall_mem_list fun x hx y hy => ?_
        exact .inr ⟨(hslot x hx).1.trans (hslot y hy).1.symm, (hslot y hy).2⟩
    · exact Pairwise.nil
  · refine pairwise_lt_range.imp fun {a b} hab => ?_
    intro x hx y hy
    rw [slot_of_mem_block hx, slot_of_mem_block hy]
    exact .inl hab

theorem order_filter_stays :
    m.order.filter (fun i => m.target i = none) = (range n).filter fun i => m.target i = none := by
  have hblock : ∀ i, (m.block i).filter (fun i => m.target i = none) = if m.target i = none then [i] else [] := by
    intro i
    have hmoved : (m.movedTo i).filter (fun i => m.target i = none) = [] := by
      refine filter_eq_nil_iff.2 fun x hx => ?_
      simp [mem_movedTo.1 hx]
    unfold block
    split
    · next hi => simp [hi, hmoved]
    · rfl
  unfold order
  induction range n with
  | nil => rfl
  | cons i is ih =>
    rw [flatMap_cons, filter_append, hblock]
    split <;> simp_all

/-- What moves stands right behind its target, in its old order. -/
theorem block_infix_order (hj : j < n) (hstay : m.target j = none) : (j :: m.movedTo j) <:+: m.order := by
  have hmem : j ∈ range n := mem_range.2 hj
  obtain ⟨before, after, hsplit⟩ := append_of_mem hmem
  refine ⟨before.flatMap m.block, after.flatMap m.block, ?_⟩
  unfold order
  rw [hsplit, flatMap_append, flatMap_cons, block_of_stays hstay]
  simp

theorem order_eq_range (h : ∀ i, m.target i = none) : m.order = range n := by
  have hkept : m.order.filter (fun i => m.target i = none) = (range n).filter fun i => m.target i = none :=
    order_filter_stays
  simpa [h] using hkept

end Moves

/-! ## The elements at the positions -/

variable {α : Type}

/-- The elements of a list at the given positions. -/
def pick (l : List α) (positions : List Nat) : List α := positions.filterMap (l[·]?)

theorem pick_range (l : List α) : pick l (range l.length) = l := by
  induction l with
  | nil => rfl
  | cons a l ih =>
    rw [length_cons, range_succ_eq_map]
    simpa [pick] using ih

theorem pick_append (l : List α) (xs ys : List Nat) : pick l (xs ++ ys) = pick l xs ++ pick l ys :=
  filterMap_append

theorem pick_perm {l : List α} {xs : List Nat} (h : xs.Perm (range l.length)) : (pick l xs).Perm l := by
  have hperm := h.filterMap (l[·]?)
  rwa [show (range l.length).filterMap (l[·]?) = l from pick_range l] at hperm

end Lib.Reorder
