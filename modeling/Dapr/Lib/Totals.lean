import Mathlib.Algebra.GroupWithZero.Nat
import Mathlib.Algebra.Order.BigOperators.Group.List
import Mathlib.Data.List.AList
/-!
# Sums over the entries of a map

A weight of each entry, summed over a finite map: how the sum changes when an entry is added,
changed or dropped. The sum depends only on what the lookups give.
-/

namespace Lib.Totals

open List

variable {K V V' : Type}

/-- The sum of a weight over the entries. -/
def total (f : K → V → Nat) (m : AList fun _ : K => V) : Nat := (m.entries.map fun e => f e.1 e.2).sum

def keep (p : K → Bool) (m : AList fun _ : K => V) : AList fun _ : K => V :=
  ⟨m.entries.filter fun e => p e.1, m.nodupKeys.sublist filter_sublist⟩

variable {f : K → V → Nat} {p : K → Bool} {g : V → V} {k' : K}

/-- What is kept and what is dropped make up the whole. -/
theorem total_keep {m : AList fun _ : K => V} :
    total f (keep p m) + ((m.entries.filter fun e => !p e.1).map fun e => f e.1 e.2).sum = total f m := by
  have hsplit : ∀ es : List (Σ _ : K, V), ((es.filter fun e => p e.1).map fun e => f e.1 e.2).sum +
      ((es.filter fun e => !p e.1).map fun e => f e.1 e.2).sum = (es.map fun e => f e.1 e.2).sum := by
    intro es
    induction es with
    | nil => rfl
    | cons e es ih => cases hp : p e.1 <;> simp [hp] <;> omega
  exact hsplit m.entries

variable [DecidableEq K] {m : AList fun _ : K => V} {k : K} {v v' : V}

/-- Change the value of a key, if there is one. -/
def modify (k : K) (f : V → V) (m : AList fun _ : K => V) : AList fun _ : K => V :=
  match m.lookup k with
  | some v => m.insert k (f v)
  | none => m

theorem perm_erase (h : m.lookup k = some v) : (⟨k, v⟩ :: (m.erase k).entries).Perm m.entries := by
  refine lookup_ext ?_ m.nodupKeys ?_
  · exact nodupKeys_cons.2 ⟨notMem_keys_kerase k m.nodupKeys, (m.erase k).nodupKeys⟩
  · intro k' v'
    by_cases hk : k' = k
    · subst hk
      rw [dlookup_cons_eq, show List.dlookup k' m.entries = some v from h]
    · rw [dlookup_cons_ne _ _ hk]
      exact Iff.of_eq (congrArg (v' ∈ ·) (AList.lookup_erase_ne hk))

theorem total_erase (h : m.lookup k = some v) : total f (m.erase k) + f k v = total f m := by
  rw [total, total, ← ((perm_erase h).map _).sum_eq, map_cons, sum_cons, Nat.add_comm]

theorem total_insert (h : m.lookup k = some v) : total f (m.insert k v') + f k v = total f m + f k v' := by
  have hinsert : total f (m.insert k v') = f k v' + total f (m.erase k) := by
    rfl
  have := total_erase (f := f) h
  omega

theorem total_insert_new (h : m.lookup k = none) : total f (m.insert k v) = total f m + f k v := by
  rw [total, AList.entries_insert_of_notMem (AList.lookup_eq_none.1 h), Nat.add_comm]
  rfl

/-- Maps whose lookups weigh the same have the same sum. -/
theorem total_congr {g : K → V' → Nat} {m' : AList fun _ : K => V'}
    (h : ∀ k, (m.lookup k).map (f k) = (m'.lookup k).map (g k)) : total f m = total g m' := by
  have hnodup : ∀ {W : Type} (w : K → W → Nat) (n : AList fun _ : K => W),
      (n.entries.map (Sigma.map id w : (Σ _ : K, W) → Σ _ : K, Nat)).NodupKeys := by
    intro W w n
    have hkeys : (n.entries.map (Sigma.map id w : (Σ _ : K, W) → Σ _ : K, Nat)).keys = n.keys := by
      simp [List.keys, AList.keys, Sigma.map]
    unfold List.NodupKeys
    exact hkeys ▸ n.keys_nodup
  have hperm : (m.entries.map (Sigma.map id f : (Σ _ : K, V) → Σ _ : K, Nat)).Perm
      (m'.entries.map (Sigma.map id g : (Σ _ : K, V') → Σ _ : K, Nat)) := by
    refine lookup_ext (hnodup f m) (hnodup g m') fun k n => ?_
    rw [dlookup_map₂, dlookup_map₂]
    exact Iff.of_eq (congrArg (n ∈ ·) (h k))
  have hsum := (hperm.map Sigma.snd).sum_eq
  simpa [Function.comp_def, Sigma.map, total] using hsum

@[simp] theorem lookup_modify_self : (modify k g m).lookup k = (m.lookup k).map g := by
  unfold modify
  cases h : m.lookup k with
  | none => simp [h]
  | some v => simp

theorem lookup_modify_ne (h : k' ≠ k) : (modify k g m).lookup k' = m.lookup k' := by
  unfold modify
  cases m.lookup k with
  | none => rfl
  | some v => exact AList.lookup_insert_ne h

theorem mem_modify : k' ∈ modify k g m ↔ k' ∈ m := by
  rw [← AList.lookup_isSome, ← AList.lookup_isSome]
  by_cases hk : k' = k
  · subst hk
    simp
  · rw [lookup_modify_ne hk]

theorem total_modify (h : m.lookup k = some v) : total f (modify k g m) + f k v = total f m + f k (g v) := by
  rw [modify, h]
  exact total_insert h

theorem lookup_keep : (keep p m).lookup k = if p k then m.lookup k else none := by
  apply Option.ext
  intro v
  have hmem : v ∈ (keep p m).lookup k ↔ (⟨k, v⟩ : Σ _ : K, V) ∈ m.entries ∧ p k = true := by
    rw [AList.mem_lookup_iff]
    exact mem_filter
  rw [← Option.mem_def, hmem, ← AList.mem_lookup_iff]
  cases p k <;> simp

end Lib.Totals
