import Mathlib.Data.List.Nodup
import Mathlib.Data.List.Perm.Basic
/-!
# Lists with one element for each key
-/

namespace Lib.Keyed

variable {α κ : Type} {key : α → κ} {l l' : List α} {a : α} {k : κ}

section Lookup
variable [DecidableEq κ]

def lookup (key : α → κ) (l : List α) (k : κ) : Option α := l.find? (key · = k)

/-- The key of what is looked up. -/
theorem key_of_lookup (h : lookup key l k = some a) : key a = k := by simpa using List.find?_some h

theorem mem_of_lookup (h : lookup key l k = some a) : a ∈ l := List.mem_of_find?_eq_some h

theorem lookup_eq_none : lookup key l k = none ↔ ∀ a ∈ l, key a ≠ k := by simp [lookup]

theorem lookup_eq_some (hn : (l.map key).Nodup) : lookup key l k = some a ↔ a ∈ l ∧ key a = k := by
  refine ⟨fun h => ⟨mem_of_lookup h, key_of_lookup h⟩, ?_⟩
  rintro ⟨ha, rfl⟩
  cases h : lookup key l (key a) with
  | none => exact absurd rfl (lookup_eq_none.1 h a ha)
  | some b => rw [List.inj_on_of_nodup_map hn (mem_of_lookup h) ha (key_of_lookup h)]

theorem lookup_append : lookup key (l ++ l') k = (lookup key l k).or (lookup key l' k) := List.find?_append

/-- The element with the key of another one is replaced by it. -/
theorem lookup_set (key : α → κ) (a : α) {j : Nat} (hj : l.findIdx? (key · = key a) = some j) :
    lookup key (l.set j a) k = if key a = k then some a else lookup key l k := by
  induction l generalizing j with
  | nil => simp at hj
  | cons b l ih =>
    by_cases hb : key b = key a
    · obtain rfl : 0 = j := by simpa [List.findIdx?_cons, hb] using hj
      by_cases hk : key a = k <;> simp [lookup, hk, hb]
    · obtain ⟨i, hi, rfl⟩ : ∃ i, l.findIdx? (key · = key a) = some i ∧ i + 1 = j := by
        simpa [List.findIdx?_cons, hb] using hj
      have ih := ih hi
      simp only [lookup] at ih ⊢
      by_cases hk : key b = k
      · simp [hk, show key a ≠ k from fun h => hb (hk.trans h.symm)]
      · simpa [hk] using ih

theorem map_set (key : α → κ) (a : α) {j : Nat} (hj : l.findIdx? (key · = key a) = some j) : (l.set j a).map key = l.map key := by
  obtain ⟨hlt, hkey, -⟩ := List.findIdx?_eq_some_iff_getElem.1 hj
  rw [List.map_set, ← of_decide_eq_true hkey]
  apply List.ext_getElem (by simp)
  intro i hi hi'
  rw [List.getElem_set]
  split
  · rename_i hij
    subst hij
    rw [List.getElem_map]
  · rfl

end Lookup

theorem find?_filter {p q : α → Bool} (h : ∀ a, l.find? q = some a → p a = true) : (l.filter p).find? q = l.find? q := by
  induction l with
  | nil => rfl
  | cons a l ih =>
    by_cases hq : q a = true
    · have hp : p a = true := h a (by simp [hq])
      simp [hp, hq]
    · have hrest : ∀ b, l.find? q = some b → p b = true := fun b hb => h b (by simp [hq, hb])
      by_cases hp : p a = true <;> simp [hp, hq, ih hrest]

theorem perm_of_mem_iff (hn : (l.map key).Nodup) (hn' : (l'.map key).Nodup) (h : ∀ a, a ∈ l ↔ a ∈ l') : l.Perm l' :=
  (List.perm_ext_iff_of_nodup (List.Nodup.of_map key hn) (List.Nodup.of_map key hn')).2 h

theorem mem_eraseP (hn : l.Nodup) {p : α → Bool} (hp : ∀ a ∈ l, ∀ b ∈ l, p a → p b → a = b) :
    a ∈ l.eraseP p ↔ a ∈ l ∧ p a = false := by
  cases hx : l.find? p with
  | none =>
    have hall : ∀ a ∈ l, p a = false := by simpa using hx
    rw [List.eraseP_of_forall_not fun b hb => by simp [hall b hb]]
    exact ⟨fun ha => ⟨ha, hall a ha⟩, And.left⟩
  | some x =>
    have hmem := List.mem_of_find?_eq_some hx
    have hpx := List.find?_some hx
    obtain ⟨b, l₁, l₂, hfront, hpb, rfl, herase⟩ := List.exists_of_eraseP hmem hpx
    rw [herase]
    have hne : ∀ c ∈ l₁ ++ l₂, p c = false := by
      intro c hc
      rw [List.nodup_middle, List.nodup_cons] at hn
      by_contra hpc
      have hcb : c = b := hp c (by simp at hc ⊢; tauto) b (by simp) (by simpa using hpc) hpb
      exact hn.1 (hcb ▸ hc)
    constructor
    · intro ha
      exact ⟨by simp at ha ⊢; tauto, hne a ha⟩
    · rintro ⟨ha, hpa⟩
      have hab : a ≠ b := fun h => by simp [h, hpb] at hpa
      simp only [List.mem_append, List.mem_cons, hab, false_or] at ha ⊢
      exact ha

end Lib.Keyed
