import Mathlib.Data.List.AList
import Mathlib.Data.List.Induction
/-!
# Tables collected from entries

A table is a map from keys to values. One is collected from a list of entries by writing
each entry under its key, so that a later entry overwrites an earlier one with the same key.
If entries with the same key have the same value, the order does not matter.
-/

namespace Lib.Tables

variable {α K V : Type} [DecidableEq K]

/-- Two tables that answer every lookup the same. -/
def Same (a b : AList fun _ : K => V) : Prop := ∀ k, a.lookup k = b.lookup k

theorem Same.refl (a : AList fun _ : K => V) : Same a a := fun _ => rfl

theorem Same.symm {a b : AList fun _ : K => V} (h : Same a b) : Same b a := fun k => (h k).symm

theorem Same.trans {a b c : AList fun _ : K => V} (h : Same a b) (h' : Same b c) : Same a c :=
  fun k => (h k).trans (h' k)

/-- As many entries, each of which the other table has too. -/
theorem same_of_subset {a b : AList fun _ : K => V} (hlen : a.entries.length = b.entries.length)
    (hsub : ∀ e ∈ a.entries, b.lookup e.1 = some e.2) : Same a b := by
  have hmem : a.entries ⊆ b.entries := fun e he => AList.mem_lookup_iff.1 (hsub e he)
  have hperm : a.entries.Perm b.entries :=
    (List.subperm_of_subset (List.NodupKeys.nodup a.nodupKeys) hmem).perm_of_length_le (Nat.le_of_eq hlen.symm)
  exact fun k => AList.perm_lookup hperm

/-- The entries of a list that satisfy `p`, by key. -/
def collect (p : α → Prop) [DecidablePred p] (key : α → K) (val : α → V) (l : List α) : AList fun _ : K => V :=
  l.foldl (fun m a => if p a then m.insert (key a) (val a) else m) ∅

section Collect
variable {p : α → Prop} [DecidablePred p] {key : α → K} {val : α → V} {l l' : List α}

/-- A collected table holds exactly the entries, if those with the same key agree. -/
theorem lookup_collect (hc : ∀ a ∈ l, ∀ b ∈ l, key a = key b → val a = val b) (k : K) (v : V) :
    (collect p key val l).lookup k = some v ↔ ∃ a ∈ l, p a ∧ key a = k ∧ val a = v := by
  induction l using List.reverseRecOn with
  | nil => simp [collect]
  | append_singleton l a ih =>
    have hrest := ih fun a ha b hb => hc a (List.mem_append_left _ ha) b (List.mem_append_left _ hb)
    have hsnoc : (∃ b ∈ l ++ [a], p b ∧ key b = k ∧ val b = v) ↔
        (∃ b ∈ l, p b ∧ key b = k ∧ val b = v) ∨ p a ∧ key a = k ∧ val a = v := by
      simp
    have hstep : collect p key val (l ++ [a]) =
        if p a then (collect p key val l).insert (key a) (val a) else collect p key val l := by
      simp [collect]
    rw [hsnoc, hstep]
    by_cases hp : p a
    · rw [if_pos hp]
      by_cases hk : key a = k
      · -- an earlier entry with this key has the same value
        subst hk
        rw [AList.lookup_insert, Option.some_inj]
        constructor
        · exact fun hv => .inr ⟨hp, rfl, hv⟩
        · rintro (⟨b, hb, -, hkey, rfl⟩ | ⟨-, -, hv⟩)
          · exact hc a (by simp) b (by simp [hb]) hkey.symm
          · exact hv
      · rw [AList.lookup_insert_ne (Ne.symm hk), hrest]
        simp [hk]
    · rw [if_neg hp, hrest]
      simp [hp]

/-- The last entries win. -/
theorem lookup_collect_append {k : K} {v : V} (hmem : ∃ a ∈ l', p a ∧ key a = k)
    (hval : ∀ a ∈ l', p a → key a = k → val a = v) : (collect p key val (l ++ l')).lookup k = some v := by
  induction l' using List.reverseRecOn with
  | nil =>
    obtain ⟨a, ha, -⟩ := hmem
    cases ha
  | append_singleton l' b ih =>
    have hstep : collect p key val (l ++ (l' ++ [b])) =
        if p b then (collect p key val (l ++ l')).insert (key b) (val b) else collect p key val (l ++ l') := by
      simp [collect]
    rw [hstep]
    by_cases hb : p b ∧ key b = k
    · rw [if_pos hb.1, ← hb.2, AList.lookup_insert, hval b (by simp) hb.1 hb.2]
    · have hmem' : ∃ a ∈ l', p a ∧ key a = k := by
        obtain ⟨a, ha, hpa⟩ := hmem
        rcases List.mem_append.1 ha with ha | ha
        · exact ⟨a, ha, hpa⟩
        · exact absurd (List.mem_singleton.1 ha ▸ hpa) hb
      have hrest := ih hmem' fun a ha => hval a (List.mem_append_left _ ha)
      split
      · next hp => rwa [AList.lookup_insert_ne fun heq => hb ⟨hp, heq.symm⟩]
      · exact hrest

theorem same_collect (hc : ∀ a ∈ l, ∀ b ∈ l, key a = key b → val a = val b)
    (hc' : ∀ a ∈ l', ∀ b ∈ l', key a = key b → val a = val b)
    (h : ∀ k v, (∃ a ∈ l, p a ∧ key a = k ∧ val a = v) ↔ ∃ a ∈ l', p a ∧ key a = k ∧ val a = v) :
    Same (collect p key val l) (collect p key val l') := by
  intro k
  apply Option.ext
  intro v
  rw [lookup_collect hc, lookup_collect hc', h]

theorem same_collect_of_perm (hc : ∀ a ∈ l, ∀ b ∈ l, key a = key b → val a = val b) (hp : l'.Perm l) :
    Same (collect p key val l') (collect p key val l) := by
  refine same_collect (fun a ha b hb => ?_) hc fun k v => by simp [hp.mem_iff]
  exact hc a (hp.mem_iff.1 ha) b (hp.mem_iff.1 hb)

end Collect

end Lib.Tables
