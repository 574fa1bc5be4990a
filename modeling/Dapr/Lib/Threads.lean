import Mathlib.Data.List.Basic
/-!
# Interleaved threads

Threads that share a state are a list of what each of them will do next. A step changes one
entry; the steps of any interleaving are those of any index. Invariants speak of how many
threads are at certain places, and a step changes such a number by what the thread leaves and
enters.
-/

namespace Lib.Threads

open List

variable {σ : Type} {threads : List σ} {i : Nat} {t t' : σ}

def countAt (p : σ → Bool) (threads : List σ) : Nat := threads.countP p

/-- What a thread counts for. -/
def weight (p : σ → Bool) (t : σ) : Nat := if p t then 1 else 0

variable {p : σ → Bool} {j : Nat} {x : σ}

@[simp] theorem weight_of_pos (h : p t = true) : weight p t = 1 := if_pos h

@[simp] theorem weight_of_neg (h : p t = false) : weight p t = 0 := if_neg (by simp [h])

/-- The thread that moves stands between those before it and those behind it. -/
theorem split_at (h : threads[i]? = some t) (t' : σ) :
    ∃ before behind, threads = before ++ t :: behind ∧ threads.set i t' = before ++ t' :: behind := by
  obtain ⟨hi, rfl⟩ := List.getElem?_eq_some_iff.1 h
  refine ⟨threads.take i, threads.drop (i + 1), ?_, set_eq_take_append_cons_drop.trans (if_pos hi)⟩
  rw [getElem_cons_drop, take_append_drop]

/-- After a step of one thread, a thread is that one or stands where it stood. -/
theorem at_set (h : (threads.set i t')[j]? = some x) : j = i ∧ x = t' ∨ j ≠ i ∧ threads[j]? = some x := by
  rw [getElem?_set] at h
  split at h
  · next heq =>
    split at h
    · exact .inl ⟨heq.symm, (Option.some.inj h).symm⟩
    · cases h
  · next hne => exact .inr ⟨fun heq => hne heq.symm, h⟩

theorem at_append (h : (threads ++ [t])[j]? = some x) : threads[j]? = some x ∨ x = t := by
  rw [getElem?_append] at h
  split at h
  · exact .inl h
  · exact .inr (mem_singleton.1 (mem_of_getElem? h))

theorem countAt_set (p : σ → Bool) (h : threads[i]? = some t) (t' : σ) :
    countAt p (threads.set i t') + weight p t = countAt p threads + weight p t' := by
  obtain ⟨before, behind, hold, hnew⟩ := split_at h t'
  simp only [countAt, weight, hnew]
  rw [hold, countP_append, countP_append, countP_cons, countP_cons]
  omega

/-- A thread that counts for the same afterwards. -/
theorem countAt_set_of_eq (h : threads[i]? = some t) (hp : p t' = p t) : countAt p (threads.set i t') = countAt p threads := by
  have := countAt_set p h t'
  simp only [weight, hp] at this
  omega

theorem countAt_append (p : σ → Bool) (t : σ) : countAt p (threads ++ [t]) = countAt p threads + weight p t := by
  simp [countAt, weight]

theorem countAt_set_append (p : σ → Bool) (h : threads[i]? = some t) (started : σ) :
    countAt p (threads.set i t' ++ [started]) + weight p t = countAt p threads + weight p t' + weight p started := by
  have hset := countAt_set p h t'
  rw [countAt_append]
  omega

theorem weight_le_countAt (p : σ → Bool) (h : threads[i]? = some t) : weight p t ≤ countAt p threads := by
  obtain ⟨before, behind, hold, -⟩ := split_at h t
  simp only [countAt, weight]
  rw [hold, countP_append, countP_cons]
  omega

/-- Threads that leave the places and do not come to them. -/
theorem countAt_le_of_forall₂ {τ : Type} {q : τ → Bool} {threads' : List τ}
    (h : Forall₂ (fun a b => q b = true → p a = true) threads threads') :
    countAt q threads' ≤ countAt p threads := by
  induction h with
  | nil => exact Nat.le_refl _
  | @cons a b _ _ hab _ ih =>
    simp only [countAt, countP_cons] at ih ⊢
    by_cases hq : q b = true
    · simp only [hq, hab hq]
      omega
    · simp only [hq, Bool.false_eq_true, if_false]
      omega

theorem countAt_eq_zero : countAt p threads = 0 ↔ ∀ t ∈ threads, p t = false := by
  simp [countAt]

theorem countAt_pos (h : threads[i]? = some t) (ht : p t = true) : 0 < countAt p threads :=
  countP_pos_iff.2 ⟨t, mem_of_getElem? h, ht⟩

/-- Where at most one thread can be, two threads are one. -/
theorem eq_of_countAt_le_one (h : countAt p threads ≤ 1) (hi : threads[i]? = some t) (hj : threads[j]? = some t')
    (ht : p t = true) (ht' : p t' = true) : i = j := by
  induction threads generalizing i j with
  | nil => simp at hi
  | cons x xs ih =>
    have hcons : countAt p (x :: xs) = countAt p xs + weight p x := countP_cons
    cases i with
    | zero =>
      cases j with
      | zero => rfl
      | succ j =>
        obtain rfl : x = t := by simpa using hi
        have hpos : 0 < countAt p xs := countAt_pos hj ht'
        rw [hcons, weight_of_pos ht] at h
        omega
    | succ i =>
      cases j with
      | zero =>
        obtain rfl : x = t' := by simpa using hj
        have hpos : 0 < countAt p xs := countAt_pos hi ht
        rw [hcons, weight_of_pos ht'] at h
        omega
      | succ j => rw [ih (by omega) hi hj]

end Lib.Threads
