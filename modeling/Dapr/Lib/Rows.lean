import Mathlib.Data.List.Basic
/-!
# Lists kept in keyed rows

A store maps keys to values and applies a transaction as a list of writes. A list is kept
in it one row per element, under the keys `κ 0, κ 1, …`. Its writer does not rewrite the
whole list: it counts the elements added at the end and the rows to give up since the last
transaction, and writes only those. `Tracks` is the relation between rows, list and the two
counts that makes this sound; `Holds` is what a transaction leaves behind.
-/

namespace Lib.Rows

open Function List

variable {K V α : Type}

inductive Write (K V : Type) where
  | put (k : K) (v : V)
  | del (k : K)

section Apply
variable [DecidableEq K]

@[simp] def apply (rows : K → Option V) : Write K V → K → Option V
  | .put k v => update rows k (some v)
  | .del k => update rows k none

def applyAll (rows : K → Option V) (ws : List (Write K V)) : K → Option V :=
  ws.foldl apply rows

@[simp] theorem applyAll_nil (rows : K → Option V) : applyAll rows [] = rows := rfl

@[simp] theorem applyAll_cons (rows : K → Option V) (w : Write K V) (ws : List (Write K V)) :
    applyAll rows (w :: ws) = applyAll (apply rows w) ws := rfl

@[simp] theorem applyAll_append (rows : K → Option V) (ws ws' : List (Write K V)) :
    applyAll rows (ws ++ ws') = applyAll (applyAll rows ws) ws' := by
  simp [applyAll]

@[simp] def Write.key : Write K V → K
  | .put k _ => k
  | .del k => k

theorem apply_ne (rows : K → Option V) {w : Write K V} {k : K} (h : k ≠ w.key) :
    apply rows w k = rows k := by
  cases w <;> simp only [Write.key] at h <;> simp [apply, h]

theorem applyAll_ne (rows : K → Option V) {ws : List (Write K V)} {k : K} (h : ∀ w ∈ ws, k ≠ w.key) :
    applyAll rows ws k = rows k := by
  induction ws generalizing rows with
  | nil => rfl
  | cons w ws ih =>
    rw [applyAll_cons, ih _ (fun w' hw' => h w' (by simp [hw'])), apply_ne rows (h w (by simp))]

/-- A transaction treats every key by itself. -/
theorem applyAll_congr {rows rows' : K → Option V} {k : K} (h : rows k = rows' k) (ws : List (Write K V)) :
    applyAll rows ws k = applyAll rows' ws k := by
  induction ws generalizing rows rows' with
  | nil => exact h
  | cons w ws ih =>
    refine ih ?_
    cases w with
    | put k' | del k' => by_cases hk : k = k' <;> simp [apply, update, h]

/-- In a transaction put together from parts that write different groups of keys, only its own
part matters to a key. -/
theorem applyAll_parts {G : Type} (group : K → G) {parts : List (G × List (Write K V))}
    (hin : ∀ p ∈ parts, ∀ w ∈ p.2, group w.key = p.1) (hnd : (parts.map Prod.fst).Nodup)
    {k : K} {ws : List (Write K V)} (hmem : (group k, ws) ∈ parts) (rows : K → Option V) :
    applyAll rows (parts.flatMap Prod.snd) k = applyAll rows ws k := by
  induction parts generalizing rows with
  | nil => cases hmem
  | cons p parts ih =>
    rw [map_cons, nodup_cons] at hnd
    have hrest := fun q hq => hin q (mem_cons_of_mem _ hq)
    rw [flatMap_cons, applyAll_append]
    rcases mem_cons.1 hmem with rfl | hmem
    · -- the key's own part comes first: the later ones leave it alone
      refine applyAll_ne _ fun w hw hk => hnd.1 ?_
      obtain ⟨q, hq, hwq⟩ := mem_flatMap.1 hw
      exact mem_map.2 ⟨q, hq, by rw [← hrest q hq w hwq, hk]⟩
    · rw [ih hrest hnd.2 hmem]
      refine applyAll_congr (applyAll_ne rows fun w hw hk => hnd.1 ?_) ws
      refine mem_map.2 ⟨_, hmem, ?_⟩
      rw [← hin p (by simp) w hw, hk]
end Apply

/-! ## The writes of one list -/

/-- Write the values `vs` as the rows `i, i + 1, …`. -/
def putsFrom (κ : Nat → K) : Nat → List V → List (Write K V)
  | _, [] => []
  | i, v :: vs => .put (κ i) v :: putsFrom κ (i + 1) vs

/-- Delete the `n` rows from `i` on. -/
def delsFrom (κ : Nat → K) : Nat → Nat → List (Write K V)
  | _, 0 => []
  | i, n + 1 => .del (κ i) :: delsFrom κ (i + 1) n

variable {w : Write K V} {k : K} {ws : List (Write K V)} {κ : Nat → K} {added i len removed removed' : Nat}
  {vs : List V} {rows : Nat → Option V}

theorem key_of_mem_putsFrom (h : w ∈ putsFrom κ i vs) : ∃ j, w.key = κ j := by
  induction vs generalizing i with
  | nil => cases h
  | cons v vs ih =>
    rcases mem_cons.1 h with rfl | h
    · exact ⟨i, rfl⟩
    · exact ih h

theorem key_of_mem_delsFrom {n : Nat} (h : w ∈ delsFrom κ i n) : ∃ j, w.key = κ j := by
  induction n generalizing i with
  | zero => cases h
  | succ n ih =>
    rcases mem_cons.1 h with rfl | h
    · exact ⟨i, rfl⟩
    · exact ih h

section Effect
variable [DecidableEq K]

theorem applyAll_putsFrom (hκ : Injective κ) (rows : K → Option V) (i : Nat) (vs : List V) (j : Nat) :
    applyAll rows (putsFrom κ i vs) (κ j) = if i ≤ j ∧ j < i + vs.length then vs[j - i]? else rows (κ j) := by
  induction vs generalizing rows i with
  | nil => rw [putsFrom, applyAll_nil, if_neg (by simp only [length_nil]; omega)]
  | cons v vs ih =>
    rw [putsFrom, applyAll_cons, ih]
    rcases Nat.lt_trichotomy j i with hlt | rfl | hgt
    · have hne : κ j ≠ κ i := fun e => by have := hκ e; omega
      rw [if_neg (by omega), if_neg (by omega), apply, update_of_ne hne]
    · rw [if_neg (by omega), apply]
      simp
    · have hne : κ j ≠ κ i := fun e => by have := hκ e; omega
      have hj : j - i = (j - (i + 1)) + 1 := by omega
      simp only [length_cons, hj, apply, update_of_ne hne]
      exact if_congr (by omega) rfl rfl

theorem applyAll_delsFrom (hκ : Injective κ) (rows : K → Option V) (i n j : Nat) :
    applyAll rows (delsFrom κ i n) (κ j) = if i ≤ j ∧ j < i + n then none else rows (κ j) := by
  induction n generalizing rows i with
  | zero => rw [delsFrom, applyAll_nil, if_neg (by omega)]
  | succ n ih =>
    rw [delsFrom, applyAll_cons, ih]
    by_cases hij : j = i
    · subst hij
      rw [if_neg (by omega), if_pos (by omega), apply, update_self]
    · have hne : κ j ≠ κ i := fun e => hij (hκ e)
      rw [apply, update_of_ne hne]
      exact if_congr (by omega) rfl rfl
end Effect

/-! ## A list and its rows -/

section Tracking
variable (Enc : α → V → Prop)

/-- The rows are the list: row `i` encodes element `i`, and there is no other row. -/
structure Holds (rows : Nat → Option V) (items : List α) : Prop where
  row : ∀ i x, items[i]? = some x → ∃ v, rows i = some v ∧ Enc x v
  none : ∀ i, items.length ≤ i → rows i = none

/-- The rows lag behind the list by the last `added` elements, and every row beyond the
list is below `removed`. -/
structure Tracks (rows : Nat → Option V) (items : List α) (added removed : Nat) : Prop where
  added_le : added ≤ items.length
  kept : ∀ i x, i < items.length - added → items[i]? = some x → ∃ v, rows i = some v ∧ Enc x v
  gone : ∀ i, items.length ≤ i → removed ≤ i → rows i = none

variable {Enc} {rows' : Nat → Option V} {items : List α}

theorem Holds.tracks (h : Holds Enc rows items) : Tracks Enc rows items 0 0 where
  added_le := Nat.zero_le _
  kept i x _ hx := h.row i x hx
  gone i hi _ := h.none i hi

theorem Holds.of_empty (h : ∀ i, rows i = Option.none) : Holds Enc rows ([] : List α) where
  row i x hx := by simp at hx
  none i _ := h i

theorem Tracks.push (h : Tracks Enc rows items added removed) (x : α) :
    Tracks Enc rows (items ++ [x]) (added + 1) removed where
  added_le := by simpa using h.added_le
  kept i y hi hy := by
    have hlt : i < items.length - added := by simp at hi; omega
    rw [getElem?_append_left (by omega)] at hy
    exact h.kept i y hlt hy
  gone i hi hr := h.gone i (by simp at hi; omega) hr

theorem Tracks.pushAll (h : Tracks Enc rows items added removed) (xs : List α) :
    Tracks Enc rows (items ++ xs) (added + xs.length) removed := by
  induction xs generalizing items added with
  | nil => simpa using h
  | cons x xs ih =>
    have := ih (h.push x)
    simpa [Nat.add_assoc, Nat.add_comm 1] using this

/-- Every row is below the length of the list or below the number counted as removed. -/
def Bounded (rows : Nat → Option V) (len removed : Nat) : Prop :=
  ∀ i, len ≤ i → removed ≤ i → rows i = none

theorem Tracks.bounded (h : Tracks Enc rows items added removed) : Bounded rows items.length removed := h.gone

/-- Dropping the whole list is sound once every row it had is counted as removed. -/
theorem Bounded.clear (h : Bounded rows len removed) (hr : removed ≤ removed') (hl : len ≤ removed') :
    Tracks Enc rows ([] : List α) 0 removed' where
  added_le := Nat.le_refl _
  kept i x _ hx := by simp at hx
  gone i _ hi := h i (by omega) (by omega)

theorem Tracks.clear (h : Tracks Enc rows items added removed) (hr : removed ≤ removed')
    (hl : items.length ≤ removed') : Tracks Enc rows ([] : List α) 0 removed' :=
  h.bounded.clear hr hl

/-- What the writes of one list leave in its rows. -/
def written (rows : Nat → Option V) (len added removed : Nat) (vs : List V) (i : Nat) : Option V :=
  if len ≤ i ∧ i < removed then none
  else if len - added ≤ i ∧ i < len then vs[i - (len - added)]?
  else rows i

theorem applyAll_list [DecidableEq K] (hκ : Injective κ) (rows : K → Option V) (hv : vs.length = added)
    (ha : added ≤ len) (i : Nat) : applyAll rows (putsFrom κ (len - added) vs ++ delsFrom κ len (removed - len)) (κ i) =
      written (fun j => rows (κ j)) len added removed vs i := by
  rw [applyAll_append, applyAll_delsFrom hκ, applyAll_putsFrom hκ]
  refine if_congr (by omega) rfl (if_congr ?_ rfl rfl)
  rw [hv]; omega

/-- After the writes the rows are exactly the list. -/
theorem Tracks.holds (h : Tracks Enc rows items added removed) (hv : vs.length = added)
    (henc : ∀ j x v, items[items.length - added + j]? = some x → vs[j]? = some v → Enc x v) :
    Holds Enc (written rows items.length added removed vs) items where
  row i x hx := by
    have hi : i < items.length := (List.getElem?_eq_some_iff.1 hx).1
    rw [written, if_neg (by omega)]
    by_cases hold : i < items.length - added
    · rw [if_neg (by omega)]
      exact h.kept i x hold hx
    · rw [if_pos (by omega)]
      have hj : i - (items.length - added) < vs.length := by omega
      refine ⟨vs[i - (items.length - added)], List.getElem?_eq_getElem hj, henc _ _ _ ?_ (List.getElem?_eq_getElem hj)⟩
      rwa [Nat.add_sub_cancel' (by omega)]
  none i hi := by
    rw [written]
    by_cases hr : i < removed
    · rw [if_pos ⟨hi, hr⟩]
    · rw [if_neg (by omega), if_neg (by omega)]
      exact h.gone i hi (by omega)
end Tracking

theorem Holds.values {Enc : α → V → Prop} {items : List α} (h : Holds Enc rows items) :
    ∃ vs, Forall₂ Enc items vs ∧ ∀ i < items.length, rows i = vs[i]? := by
  have key : ∀ (xs : List α) (r : Nat → Option V), (∀ i x, xs[i]? = some x → ∃ v, r i = some v ∧ Enc x v) →
      ∃ vs, Forall₂ Enc xs vs ∧ ∀ i < xs.length, r i = vs[i]? := by
    intro xs
    induction xs with
    | nil => intro r _; exact ⟨[], .nil, by simp⟩
    | cons x xs ih =>
      intro r hr
      obtain ⟨v, hv, he⟩ := hr 0 x rfl
      obtain ⟨vs, hvs, hrow⟩ := ih (fun i => r (i + 1)) (fun i y hy => hr (i + 1) y (by simpa using hy))
      refine ⟨v :: vs, .cons he hvs, fun i hi => ?_⟩
      cases i with
      | zero => simpa using hv
      | succ i => simpa using hrow i (by simpa using hi)
  exact key items rows h.row

/-! ## Rows that may outlive their list -/

theorem Bounded.mono {len' : Nat} (h : Bounded rows len removed) (hl : len ≤ max len' removed')
    (hr : removed ≤ max len' removed') : Bounded rows len' removed' :=
  fun i hi hi' => h i (by omega) (by omega)

theorem Bounded.written (h : Bounded rows len removed) (vs : List V) :
    Bounded (written rows len added removed vs) len 0 := by
  intro i hi _
  rw [Rows.written]
  by_cases hr : i < removed
  · rw [if_pos ⟨hi, hr⟩]
  · rw [if_neg (by omega), if_neg (by omega)]
    exact h i hi (by omega)

end Lib.Rows
