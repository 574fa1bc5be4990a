import Mathlib.Data.List.Chain
/-!
# Slices that are changed while they are ranged over

A slice is a part of a backing array. A range loop reads the array up to the length the slice had
when the loop began, at one index after the other. If the body removes the current element by moving
the later ones down, the element that follows it moves to an index that has been passed, and behind
the new end the array still has what was there before.

So a loop that removes the elements with a property removes all of them only if no two stand side by
side, and it runs out of bounds if the last element has the property and an earlier one was removed.
-/

namespace Lib.Slices

open List

variable {α β : Type}

/-- A part of an array that other slices share. -/
structure Slice (α : Type) where
  backing : List α
  len : Nat
  within : len ≤ backing.length

namespace Slice

def ofList (l : List α) : Slice α := ⟨l, l.length, le_rfl⟩

def toList (s : Slice α) : List α := s.backing.take s.len

/-- `append(s[:i], s[i+1:]...)`: the slice `s[i+1:]` must not be out of bounds. -/
def removeAt (s : Slice α) (i : Nat) : Option (Slice α) :=
  if h : i + 1 ≤ s.len then
    some {
      backing := s.backing.take i ++ (s.backing.take s.len).drop (i + 1) ++ s.backing.drop (s.len - 1)
      len := s.len - 1
      within := by
        have := s.within
        simp only [length_append, length_take, length_drop]
        omega }
  else none

theorem toList_eq {s : Slice α} {front behind : List α} (hbacking : s.backing = front ++ behind)
    (hlen : s.len = front.length) : s.toList = front := by
  rw [toList, hbacking, hlen, take_left]

/-- A removal keeps what stands at the end of the array. -/
theorem removeAt_getLast? {s s' : Slice α} {i : Nat} (h : s.removeAt i = some s') :
    s'.backing.getLast? = s.backing.getLast? ∧ s'.backing.length = s.backing.length ∧ s'.len + 1 = s.len := by
  unfold removeAt at h
  split at h
  · next hi =>
    cases h
    have := s.within
    refine ⟨?_, ?_, by dsimp only; omega⟩
    · rw [getLast?_append, getLast?_drop, if_neg (by omega)]
      cases hl : s.backing.getLast? with
      | none =>
        rw [getLast?_eq_none_iff] at hl
        simp [hl] at this
        omega
      | some a => rfl
    · simp only [length_append, length_take, length_drop]
      omega
  · cases h

/-- The rest moves down, and the last element stays behind the end too. -/
theorem removeAt_eq {s : Slice α} {before rest : List α} {a last : α} {r : Nat}
    (hbacking : s.backing = before ++ a :: rest ++ replicate r last)
    (hlen : s.len = before.length + (a :: rest).length) (hlast : (a :: rest).getLast? = some last) :
    ∃ s', s.removeAt before.length = some s' ∧ s'.backing = before ++ rest ++ replicate (r + 1) last ∧
      s'.len = before.length + rest.length := by
  obtain ⟨init, hinit⟩ := getLast?_eq_some_iff.1 hlast
  have hle : before.length + 1 ≤ s.len := by
    rw [hlen, length_cons]
    omega
  refine ⟨_, dif_pos hle, ?_, ?_⟩
  · have htake : s.backing.take s.len = before ++ a :: rest := by
      rw [hbacking, hlen, ← length_append, take_left]
    have hdrop : s.backing.drop (s.len - 1) = last :: replicate r last := by
      have hpos : s.len - 1 = (before ++ init).length := by
        rw [hlen, hinit]
        simp
      rw [hpos, hbacking, hinit]
      simp
    have hfront : s.backing.take before.length = before := by
      rw [hbacking]
      simp
    simp only [htake, hdrop, hfront]
    simp [replicate_succ]
  · simp [hlen]

end Slice

/-! ## The loop -/

/-- Range over a slice and remove the elements with `p`, collecting them with `f`: `n` steps from the index `i` on. The
result is missing where the loop runs out of bounds. -/
def sweep (p : α → Bool) (f : β → α → β) : Nat → Nat → Slice α → β → Option (Slice α × β)
  | 0, _, s, acc => some (s, acc)
  | n + 1, i, s, acc =>
    match s.backing[i]? with
    | none => sweep p f n (i + 1) s acc
    | some a =>
      if p a then
        match s.removeAt i with
        | none => none
        | some s => sweep p f n (i + 1) s (f acc a)
      else sweep p f n (i + 1) s acc

/-- What a loop leaves that passes over the element behind each one it removes. -/
def kept (p : α → Bool) : List α → List α
  | [] => []
  | [a] => if p a then [] else [a]
  | a :: b :: l => if p a then b :: kept p l else a :: kept p (b :: l)

/-- What such a loop removes. -/
def removed (p : α → Bool) : List α → List α
  | [] => []
  | [a] => if p a then [a] else []
  | a :: b :: l => if p a then a :: removed p l else removed p (b :: l)

section Sweep
variable {p : α → Bool} {f : β → α → β}

/-- Elements without the property change nothing. -/
theorem sweep_skip (s : Slice α) (acc : β) (m n i : Nat)
    (h : ∀ k a, k < m → s.backing[i + k]? = some a → p a = false) :
    sweep p f (m + n) i s acc = sweep p f n (i + m) s acc := by
  induction m generalizing i with
  | zero => simp
  | succ m ih =>
    have hstep : sweep p f (m + n + 1) i s acc = sweep p f (m + n) (i + 1) s acc := by
      rw [sweep]
      cases ha : s.backing[i]? with
      | none => rfl
      | some a => simp [h 0 a (Nat.succ_pos m) ha]
    rw [Nat.add_right_comm m 1 n, hstep, ih (i + 1) fun k a hk ha => ?_]
    · congr 1
      omega
    · exact h (k + 1) a (Nat.succ_lt_succ hk) (by rwa [Nat.add_assoc, Nat.add_comm 1 k] at ha)

/-- If the last element lacks the property the loop ends, and what is behind the end is never removed. -/
theorem sweep_kept {last : α} (hlast : p last = false) (todo : List α) :
    ∀ (before : List α) (r : Nat) (s : Slice α) (acc : β), s.backing = before ++ todo ++ replicate r last →
      s.len = before.length + todo.length → (∀ a ∈ todo.getLast?, a = last) →
      ∃ s', sweep p f (todo.length + r) before.length s acc = some (s', (removed p todo).foldl f acc) ∧
        s'.toList = before ++ kept p todo := by
  fun_induction kept p todo with
  | case1 =>
    intro before r s acc hbacking hlen _
    refine ⟨s, ?_, ?_⟩
    · have hskip := sweep_skip (p := p) (f := f) s acc r 0 before.length fun k a hk ha => ?_
      · simpa [removed, sweep] using hskip
      · rw [hbacking] at ha
        simp only [append_nil, getElem?_append_right (Nat.le_add_right _ k), getElem?_replicate] at ha
        split at ha
        · cases ha
          exact hlast
        · cases ha
    · rw [Slice.toList_eq hbacking (by simpa using hlen)]
  | case2 a hp =>
    intro before r s acc hbacking hlen hend
    rw [hend a (by simp), hlast] at hp
    cases hp
  | case3 a hp =>
    intro before r s acc hbacking hlen hend
    obtain rfl := hend a (by simp)
    refine ⟨s, ?_, ?_⟩
    · have hskip := sweep_skip (p := p) (f := f) s acc (r + 1) 0 before.length fun k b hk hb => ?_
      · simpa [removed, sweep, hlast, Nat.add_comm] using hskip
      · rw [hbacking, append_assoc, getElem?_append_right (Nat.le_add_right _ k), singleton_append,
          ← replicate_succ, getElem?_replicate] at hb
        split at hb
        · cases hb
          exact hlast
        · cases hb
    · rw [Slice.toList_eq hbacking (by simpa using hlen)]
  | case4 a b l hp ih =>
    intro before r s acc hbacking hlen hend
    obtain ⟨last', hlast'⟩ : ∃ last', (a :: b :: l).getLast? = some last' := ⟨_, getLast?_eq_some_getLast (by simp)⟩
    obtain rfl := hend last' hlast'
    obtain ⟨s', hs', hbacking', hlen'⟩ := Slice.removeAt_eq hbacking hlen hlast'
    have hread : s.backing[before.length]? = some a := by
      rw [hbacking]
      simp
    obtain ⟨s'', hs'', htoList⟩ := ih (before ++ [b]) (r + 1) s' (f acc a) (by simp [hbacking']) (by simp [hlen']; omega)
      fun c hc => hend c (by
        cases l with
        | nil => cases hc
        | cons d l => rwa [getLast?_cons_cons])
    refine ⟨s'', ?_, by simpa using htoList⟩
    rw [length_append] at hs''
    have hcount : (a :: b :: l).length + r = l.length + (r + 1) + 1 := by
      simp only [length_cons]
      omega
    rw [hcount, sweep, hread]
    simp only [hp, hs', removed]
    exact hs''
  | case5 a b l hp ih =>
    intro before r s acc hbacking hlen hend
    have hread : s.backing[before.length]? = some a := by
      rw [hbacking]
      simp
    obtain ⟨s', hs', htoList⟩ := ih (before ++ [a]) r s acc (by simp [hbacking]) (by simp [hlen]; omega)
      fun c hc => hend c (by simpa using hc)
    refine ⟨s', ?_, by simpa using htoList⟩
    rw [length_append] at hs'
    have hcount : (a :: b :: l).length + r = (b :: l).length + r + 1 := by
      simp only [length_cons]
      omega
    rw [hcount, sweep, hread]
    simp only [hp, removed]
    exact hs'

/-- If the last element has the property, and an earlier one was removed or is still to be, the loop runs out of
bounds: it meets the last element again behind the end. -/
theorem sweep_eq_none {last : α} (hlast : p last = true) (n : Nat) : ∀ (i : Nat) (s : Slice α) (acc : β),
    s.backing.getLast? = some last → i + (n + 1) = s.backing.length →
      (s.len < s.backing.length ∨ ∃ k a, i ≤ k ∧ k + 1 < s.backing.length ∧ s.backing[k]? = some a ∧ p a = true) →
      sweep p f (n + 1) i s acc = none := by
  induction n with
  | zero =>
    intro i s acc hend hi hearlier
    have hread : s.backing[i]? = some last := by rw [← hend, getLast?_eq_getElem?, ← hi, Nat.add_sub_cancel]
    rw [sweep, hread]
    simp only [hlast, if_true, Slice.removeAt]
    rw [dif_neg (by omega)]
  | succ n ih =>
    intro i s acc hend hi hearlier
    have hlt : i < s.backing.length := by omega
    rw [sweep, getElem?_eq_getElem hlt]
    dsimp only
    split
    · cases hr : s.removeAt i with
      | none => rfl
      | some s' =>
        obtain ⟨hend', hlen', hone⟩ := Slice.removeAt_getLast? hr
        have := s.within
        exact ih (i + 1) s' _ (hend'.trans hend) (by omega) (.inl (by omega))
    · next hp =>
      refine ih (i + 1) s acc hend (by omega) (hearlier.imp_right ?_)
      rintro ⟨k, a, hk, hk', hread, ha⟩
      refine ⟨k, a, Nat.lt_of_le_of_ne hk ?_, hk', hread, ha⟩
      rintro rfl
      rw [getElem?_eq_getElem hlt] at hread
      cases hread
      exact hp ha

end Sweep

/-! ## When a loop removes what it should -/

/-- No two elements with the property stand side by side, and the last one has it only if no other does. -/
structure Separated (p : α → Bool) (l : List α) : Prop where
  chain : l.IsChain fun a b => ¬(p a = true ∧ p b = true)
  last : ∀ a ∈ l.getLast?, p a = true → ∀ b ∈ l.dropLast, p b = false

section Whole
variable {p : α → Bool} {f : β → α → β} {l : List α}

theorem kept_of_chain (h : l.IsChain fun a b => ¬(p a = true ∧ p b = true)) :
    kept p l = l.filter (fun a => !p a) ∧ removed p l = l.filter p := by
  fun_induction kept p l with
  | case1 => exact ⟨rfl, rfl⟩
  | case2 _ hp | case3 _ hp => simp [removed, hp]
  | case4 a b l hp ih =>
    obtain ⟨hab, hl⟩ := isChain_cons_cons.1 h
    have hb : p b = false := Bool.eq_false_iff.2 fun hb => hab ⟨hp, hb⟩
    obtain ⟨hkept, hremoved⟩ := ih hl.tail
    simp [removed, hp, hb, hkept, hremoved]
  | case5 a b l hp ih =>
    obtain ⟨hkept, hremoved⟩ := ih (isChain_cons_cons.1 h).2
    simp [removed, hp, hkept, hremoved]

theorem exists_mem_kept (h : ¬l.IsChain fun a b => ¬(p a = true ∧ p b = true)) : ∃ a ∈ kept p l, p a = true := by
  fun_induction kept p l with
  | case1 => exact absurd .nil h
  | case2 a | case3 a => exact absurd (.singleton a) h
  | case4 a b l hp ih =>
    by_cases hb : p b = true
    · exact ⟨b, mem_cons_self, hb⟩
    · have hrest : ¬l.IsChain fun a b => ¬(p a = true ∧ p b = true) := by
        intro hl
        exact h (isChain_cons_cons.2 ⟨fun hab => hb hab.2, hl.cons fun c _ hbc => hb hbc.1⟩)
      obtain ⟨c, hc, hpc⟩ := ih hrest
      exact ⟨c, mem_cons_of_mem _ hc, hpc⟩
  | case5 a b l hp ih =>
    obtain ⟨c, hc, hpc⟩ := ih fun hl => h (isChain_cons_cons.2 ⟨fun hab => hp hab.1, hl⟩)
    exact ⟨c, mem_cons_of_mem _ hc, hpc⟩

/-- If the last element lacks the property. -/
theorem sweep_ofList_kept {last : α} (init : List α) (hlast : p last = false) (acc : β) :
    ∃ s, sweep p f (init ++ [last]).length 0 (.ofList (init ++ [last])) acc =
        some (s, (removed p (init ++ [last])).foldl f acc) ∧ s.toList = kept p (init ++ [last]) := by
  obtain ⟨s, hs, htoList⟩ := sweep_kept hlast (init ++ [last]) [] 0 (.ofList (init ++ [last])) acc
    (by simp [Slice.ofList]) (by simp [Slice.ofList]) (by simp)
  exact ⟨s, hs, htoList⟩

theorem sweep_of_separated (h : Separated p l) (acc : β) :
    ∃ s, sweep p f l.length 0 (.ofList l) acc = some (s, (l.filter p).foldl f acc) ∧
      s.toList = l.filter fun a => !p a := by
  obtain ⟨hkept, hremoved⟩ := kept_of_chain h.chain
  rcases eq_nil_or_concat' l with rfl | ⟨init, last, rfl⟩
  · exact ⟨.ofList [], rfl, rfl⟩
  · cases hp : p last with
    | false =>
      obtain ⟨s, hs, htoList⟩ := sweep_ofList_kept init hp acc
      exact ⟨s, hremoved ▸ hs, htoList.trans hkept⟩
    | true =>
      have hinit : ∀ b ∈ init, p b = false := by simpa using h.last last (by simp) hp
      have hnone : init.filter p = [] := filter_eq_nil_iff.2 fun a ha => by simp [hinit a ha]
      have hall : init.filter (fun a => !p a) = init := filter_eq_self.2 fun a ha => by simp [hinit a ha]
      have hskip := sweep_skip (p := p) (f := f) (.ofList (init ++ [last])) acc init.length 1 0 fun k a hk ha => by
        rw [Slice.ofList, Nat.zero_add, getElem?_append_left hk] at ha
        exact hinit a (mem_of_getElem? ha)
      obtain ⟨s, hs, hbacking, hlen⟩ : ∃ s, (Slice.ofList (init ++ [last])).removeAt init.length = some s ∧
          s.backing = init ++ [] ++ replicate (0 + 1) last ∧ s.len = init.length + ([] : List α).length :=
        Slice.removeAt_eq (by simp [Slice.ofList]) (by simp [Slice.ofList]) rfl
      have hread : (Slice.ofList (init ++ [last])).backing[init.length]? = some last := by simp [Slice.ofList]
      refine ⟨s, ?_, ?_⟩
      · rw [length_append, length_singleton, hskip, Nat.zero_add, sweep, hread]
        simp [hp, hs, sweep, hnone]
      · rw [append_nil] at hbacking
        rw [Slice.toList_eq hbacking hlen]
        simp [hp, hall]

/-- Otherwise the loop runs out of bounds, or leaves an element with the property. -/
theorem sweep_of_not_separated (h : ¬Separated p l) (acc : β) :
    sweep p f l.length 0 (.ofList l) acc = none ∨
      ∃ s acc', sweep p f l.length 0 (.ofList l) acc = some (s, acc') ∧ ∃ a ∈ s.toList, p a = true := by
  rcases eq_nil_or_concat' l with rfl | ⟨init, last, rfl⟩
  · exact absurd ⟨.nil, by simp⟩ h
  · cases hp : p last with
    | false =>
      obtain ⟨s, hs, htoList⟩ := sweep_ofList_kept init hp acc
      have hchain : ¬(init ++ [last]).IsChain fun a b => ¬(p a = true ∧ p b = true) := by
        refine fun hchain => h ⟨hchain, fun a ha hpa => ?_⟩
        obtain rfl : last = a := by simpa using ha
        rw [hp] at hpa
        cases hpa
      exact .inr ⟨s, _, hs, htoList ▸ exists_mem_kept hchain⟩
    | true =>
      by_cases hinit : ∀ b ∈ init, p b = false
      · refine absurd ⟨Pairwise.isChain (pairwise_append.2 ⟨?_, pairwise_singleton _ _, ?_⟩), ?_⟩ h
        · refine pairwise_of_forall_mem_list fun a ha b _ hab => ?_
          simp [hinit a ha] at hab
        · intro a ha b _ hab
          simp [hinit a ha] at hab
        · simpa [hp] using hinit
      · left
        obtain ⟨b, hb, hpb⟩ : ∃ b ∈ init, p b = true := by simpa using hinit
        obtain ⟨k, hk, rfl⟩ := mem_iff_getElem.1 hb
        rw [length_append]
        refine sweep_eq_none hp init.length 0 (.ofList (init ++ [last])) acc (by simp [Slice.ofList])
          (by simp [Slice.ofList]) (.inr ⟨k, init[k], Nat.zero_le k, by simpa [Slice.ofList] using hk, ?_, ?_⟩)
        · simp [Slice.ofList, getElem?_append_left hk]
        · exact hpb

end Whole

end Lib.Slices
