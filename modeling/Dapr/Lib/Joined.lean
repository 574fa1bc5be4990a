import Mathlib.Logic.Relation
import Mathlib.Data.List.Forall2
/-!
# Fields joined by a doubled separator

Fields are joined with a separator that is one symbol twice, and the symbol is not escaped. Two
lists of as many fields give the same text exactly when one becomes the other by shifts: a separator
inside a field is taken for the one at its end, or a symbol is moved over the boundary. Cutting a
text at its separators gives back fields without them.
-/

namespace Lib.Joined

open List

variable {α : Type} {p : α} {l l' l'' : List (List α)} {f : List α}

/-- One shift over the boundary between two fields. -/
inductive Shift (p : α) : List (List α) → List (List α) → Prop where
  | regroup (a b c : List α) (l : List (List α)) : Shift p ((a ++ [p, p] ++ b) :: c :: l) (a :: (b ++ [p, p] ++ c) :: l)
  | slide (a c : List α) (l : List (List α)) : Shift p ((a ++ [p]) :: c :: l) (a :: (p :: c) :: l)
  | tail (f : List α) {l l' : List (List α)} : Shift p l l' → Shift p (f :: l) (f :: l')

/-- Shifts, forwards and backwards. -/
def Regrouped (p : α) : List (List α) → List (List α) → Prop :=
  Relation.ReflTransGen fun l l' => Shift p l l' ∨ Shift p l' l

theorem Regrouped.trans (h : Regrouped p l l') (h' : Regrouped p l' l'') : Regrouped p l l'' :=
  Relation.ReflTransGen.trans h h'

theorem Regrouped.symm (h : Regrouped p l l') : Regrouped p l' l := by
  induction h with
  | refl => exact .refl
  | tail _ hs ih => exact .head hs.symm ih

theorem Regrouped.tail (f : List α) (h : Regrouped p l l') : Regrouped p (f :: l) (f :: l') := by
  induction h with
  | refl => exact .refl
  | tail _ hs ih => exact Relation.ReflTransGen.tail ih (hs.imp (Shift.tail f) (Shift.tail f))

theorem Shift.regrouped (h : Shift p l l') : Regrouped p l l' := .single (.inl h)

theorem Shift.length_eq (h : Shift p l l') : l'.length = l.length := by
  induction h with
  | regroup | slide => rfl
  | tail f _ ih => rw [length_cons, length_cons, ih]

theorem Regrouped.length_eq (h : Regrouped p l l') : l'.length = l.length := by
  induction h with
  | refl => rfl
  | tail _ hs ih => exact hs.elim (fun h => h.length_eq.trans ih) (fun h => h.length_eq.symm.trans ih)

/-! ## The text -/

theorem intercalate_cons {sep : List α} (h : l ≠ []) : sep.intercalate (f :: l) = f ++ sep ++ sep.intercalate l := by
  obtain ⟨g, l, rfl⟩ := exists_cons_of_ne_nil h
  exact intercalate_cons_cons

/-- What stands before a field may be counted to the text. -/
theorem intercalate_append_cons {sep u : List α} : sep.intercalate ((u ++ f) :: l) = u ++ sep.intercalate (f :: l) := by
  cases l <;> simp

theorem intercalate_concat {sep : List α} (h : l ≠ []) : sep.intercalate (l ++ [f]) = sep.intercalate l ++ sep ++ f := by
  induction l with
  | nil => exact absurd rfl h
  | cons g l ih =>
    cases l with
    | nil => simp
    | cons g' l =>
      rw [cons_append, intercalate_cons (by simp), ih (by simp)]
      simp

theorem Shift.text_eq (h : Shift p l l') : [p, p].intercalate l' = [p, p].intercalate l := by
  induction h with
  | regroup a b c l =>
    rw [intercalate_cons_cons, intercalate_append_cons]
    simp
  | slide a c l =>
    simp
  | tail f hs ih =>
    rename_i l l'
    have hlength := hs.length_eq
    cases l with
    | nil => cases hs
    | cons g l =>
      have hne : l' ≠ [] := ne_nil_of_length_pos (by rw [hlength]; exact Nat.succ_pos _)
      rw [intercalate_cons hne, intercalate_cons (by simp), ih]

theorem Regrouped.text_eq (h : Regrouped p l l') : [p, p].intercalate l' = [p, p].intercalate l := by
  induction h with
  | refl => rfl
  | tail _ hs ih => exact hs.elim (fun h => h.text_eq.trans ih) (fun h => h.text_eq.symm.trans ih)

theorem regrouped_of_append {x y y' w : List α} {xs ys : List (List α)} (hlength : xs.length = (y' :: ys).length)
    (ih : ∀ zs, xs.length = zs.length → [p, p].intercalate xs = [p, p].intercalate zs → Regrouped p xs zs)
    (hy : y = x ++ w) (htext : [p, p] ++ [p, p].intercalate xs = w ++ ([p, p] ++ [p, p].intercalate (y' :: ys))) :
    Regrouped p (x :: xs) (y :: y' :: ys) := by
  subst hy
  match w with
  | [] =>
    rw [append_nil]
    exact (ih _ hlength (by simpa using htext)).tail x
  | [a] =>
    obtain rfl : p = a := by simpa using congrArg List.head? htext
    refine Regrouped.trans (Regrouped.tail x (ih ((p :: y') :: ys) hlength ?_)) (Shift.slide x y' ys).regrouped.symm
    simpa using htext
  | a :: b :: w =>
    obtain ⟨rfl, rfl, hrest⟩ : p = a ∧ p = b ∧ [p, p].intercalate xs = w ++ ([p, p] ++ [p, p].intercalate (y' :: ys)) := by
      simpa using htext
    refine Regrouped.trans (Regrouped.tail x (ih ((w ++ [p, p] ++ y') :: ys) hlength ?_)) ?_
    · rw [intercalate_append_cons, append_assoc]
      exact hrest
    · simpa using (Shift.regroup x w y' ys).regrouped.symm

/-- Lists of as many fields give the same text exactly when shifts lead from one to the other. -/
theorem text_eq_iff (hlength : l.length = l'.length) :
    [p, p].intercalate l = [p, p].intercalate l' ↔ Regrouped p l l' := by
  refine ⟨fun htext => ?_, fun h => h.text_eq.symm⟩
  induction hn : l.length generalizing l l' with
  | zero =>
    obtain rfl := eq_nil_of_length_eq_zero hn
    obtain rfl := eq_nil_of_length_eq_zero hlength.symm
    exact .refl
  | succ n ih =>
    match l, l' with
    | [x], [y] =>
      obtain rfl : x = y := by simpa using htext
      exact .refl
    | x :: x' :: xs, y :: y' :: ys =>
      have hlength' : (x' :: xs).length = (y' :: ys).length := Nat.succ.inj hlength
      -- the first field of one is a part of the first field of the other
      rcases append_eq_append_iff.1 htext with ⟨w, hy, hrest⟩ | ⟨w, hx, hrest⟩
      · exact regrouped_of_append hlength' (fun zs hzs ht => ih hzs ht (Nat.succ.inj hn)) hy hrest
      · refine (regrouped_of_append hlength'.symm (fun zs hzs ht => ih hzs ht ?_) hx hrest).symm
        rw [← hlength']
        exact Nat.succ.inj hn
    | [], _ => cases hn
    | [_], [] | [_], _ :: _ :: _ | _ :: _ :: _, [] | _ :: _ :: _, [_] => simp at hlength

/-- Fields without the symbol are read off their text in one way only. -/
theorem eq_of_regrouped (h : Regrouped p l l') (hl : ∀ f ∈ l, p ∉ f) : l' = l := by
  have hstuck : ∀ {l l' : List (List α)}, Shift p l l' → (∃ f ∈ l, p ∈ f) ∧ ∃ f ∈ l', p ∈ f := by
    intro l l' hs
    induction hs with
    | regroup a b c l => exact ⟨⟨_, mem_cons_self, by simp⟩, ⟨b ++ [p, p] ++ c, by simp, by simp⟩⟩
    | slide a c l => exact ⟨⟨_, mem_cons_self, by simp⟩, ⟨p :: c, by simp, by simp⟩⟩
    | tail f _ ih =>
      obtain ⟨⟨g, hg, hp⟩, ⟨g', hg', hp'⟩⟩ := ih
      exact ⟨⟨g, mem_cons_of_mem _ hg, hp⟩, ⟨g', mem_cons_of_mem _ hg', hp'⟩⟩
  rcases Relation.ReflTransGen.cases_head h with rfl | ⟨m, hs, -⟩
  · rfl
  · have hsymbol : ∃ f ∈ l, p ∈ f := hs.elim (fun h => (hstuck h).1) (fun h => (hstuck h).2)
    obtain ⟨f, hf, hp⟩ := hsymbol
    exact absurd hp (hl f hf)

/-! ## Reading fields back -/

section Split
variable [DecidableEq α]

/-- Cut a text at each doubled symbol, from the left. -/
def split (p : α) : List α → List (List α)
  | [] => [[]]
  | [a] => [[a]]
  | a :: b :: rest =>
    if a = p ∧ b = p then [] :: split p rest
    else (split p (b :: rest)).modifyHead (a :: ·)

theorem split_sep (rest : List α) : split p (p :: p :: rest) = [] :: split p rest := by simp [split]

/-- A symbol that no separator starts with goes to the first field. -/
theorem split_cons {a : α} {text : List α} (h : ¬ (a = p ∧ text.head? = some p)) :
    split p (a :: text) = (split p text).modifyHead (a :: ·) := by
  cases text with
  | nil => rfl
  | cons b rest => rw [split, if_neg (by simpa using h)]

/-- A field is read back whole if no separator stands in it or starts at its end. -/
theorem split_append {x : List α} (hx : ¬ [p, p] <:+: x ++ [p]) (y : List α) :
    split p (x ++ p :: p :: y) = x :: split p y := by
  induction x with
  | nil => exact split_sep y
  | cons a x ih =>
    have hrest : ¬ [p, p] <:+: x ++ [p] := fun h => hx (h.trans (suffix_cons a _).isInfix)
    rw [cons_append, split_cons, ih hrest, modifyHead_cons]
    rintro ⟨rfl, hhead⟩
    refine hx (List.IsPrefix.isInfix ?_)
    cases x with
    | nil => exact prefix_refl _
    | cons b x =>
      obtain rfl : b = a := by simpa using hhead
      exact ⟨x ++ [b], rfl⟩

theorem split_of_no_symbol {x : List α} (hx : p ∉ x) : split p x = [x] := by
  induction x with
  | nil => rfl
  | cons a x ih =>
    rw [mem_cons, not_or] at hx
    rw [split_cons fun h => hx.1 h.1.symm, ih hx.2, modifyHead_cons]

theorem length_split_cons (a : α) (text : List α) :
    (split p text).length ≤ (split p (a :: text)).length ∧
      (split p (a :: text)).length ≤ (split p text).length + 1 := by
  induction hn : text.length using Nat.strongRecOn generalizing a text with
  | _ n ih =>
    by_cases h : a = p ∧ text.head? = some p
    · obtain ⟨rfl, hhead⟩ := h
      obtain ⟨rest, rfl⟩ : ∃ rest, text = a :: rest := head?_eq_some_iff.1 hhead
      have hrest := ih rest.length (by simp [← hn]) a rest rfl
      rw [split_sep, length_cons]
      omega
    · rw [split_cons h, length_modifyHead]
      omega

/-- Separators in two texts are separators in the two put together. -/
theorem length_split_append (x y : List α) :
    (split p x).length + (split p y).length ≤ (split p (x ++ y)).length + 1 := by
  induction hn : x.length using Nat.strongRecOn generalizing x with
  | _ n ih =>
    match x with
    | [] => simp [split]; omega
    | a :: x =>
      by_cases h : a = p ∧ x.head? = some p
      · obtain ⟨rfl, hhead⟩ := h
        obtain ⟨rest, rfl⟩ : ∃ rest, x = a :: rest := head?_eq_some_iff.1 hhead
        have hrest := ih rest.length (by simp only [← hn, length_cons]; omega) rest rfl
        rw [cons_append, cons_append, split_sep, split_sep, length_cons, length_cons]
        omega
      · have hrest := ih x.length (by simp [← hn]) x rfl
        have := (length_split_cons (p := p) a (x ++ y)).1
        rw [split_cons h, length_modifyHead, cons_append]
        omega

theorem one_le_length_split (x : List α) : 1 ≤ (split p x).length := by
  induction x with
  | nil => exact Nat.le_refl _
  | cons a x ih => exact Nat.le_trans ih (length_split_cons a x).1

theorem length_split_sep (x y : List α) :
    (split p x).length + (split p y).length ≤ (split p (x ++ p :: p :: y)).length := by
  have := length_split_append (p := p) x (p :: p :: y)
  rw [split_sep, length_cons] at this
  omega

theorem two_le_length_split {x : List α} (h : [p, p] <:+: x) : 2 ≤ (split p x).length := by
  obtain ⟨s, t, rfl⟩ := h
  have hs := one_le_length_split (p := p) s
  have ht := one_le_length_split (p := p) t
  have := length_split_sep (p := p) s t
  rw [append_assoc]
  exact Nat.le_trans (Nat.add_le_add hs ht) this

end Split

/-- No separator goes over another symbol. -/
theorem infix_of_append_cons {a : α} (ha : a ≠ p) {x y : List α} (h : [p, p] <:+: x ++ a :: y) :
    [p, p] <:+: x ∨ [p, p] <:+: y := by
  induction x with
  | nil =>
    rcases infix_cons_iff.1 h with hp | hy
    · exact absurd (cons_prefix_cons.1 hp).1.symm ha
    · exact .inr hy
  | cons b x ih =>
    rcases infix_cons_iff.1 h with hp | hrest
    · obtain ⟨rfl, hnext⟩ := cons_prefix_cons.1 hp
      cases x with
      | nil => exact absurd (cons_prefix_cons.1 hnext).1.symm ha
      | cons c x =>
        obtain ⟨rfl, -⟩ := cons_prefix_cons.1 hnext
        exact .inl ⟨[], x, rfl⟩
    · exact (ih hrest).imp_left fun hx => hx.trans (suffix_cons b x).isInfix

/-- A field without a separator that is not read back whole ends with the symbol. -/
theorem exists_concat {x : List α} (h : [p, p] <:+: x ++ [p]) (hx : ¬ [p, p] <:+: x) : ∃ x', x = x' ++ [p] := by
  rcases infix_concat_iff.1 h with hs | hi
  · obtain ⟨s, hs⟩ := hs
    have hx : s ++ [p] ++ [p] = x ++ [p] := by rw [← hs, append_assoc, singleton_append]
    exact ⟨s, (append_cancel_right hx).symm⟩
  · exact absurd hi hx

/-! ## Reading one by one -/

variable {β ε : Type}

theorem bind_ok_iff {x : Except ε α} {f : α → Except ε β} {r : β} :
    x.bind f = .ok r ↔ ∃ a, x = .ok a ∧ f a = .ok r := by
  cases x <;> simp [Except.bind]

theorem mapM_ok_iff {f : α → Except ε β} {l : List α} {r : List β} :
    l.mapM f = .ok r ↔ Forall₂ (fun a b => f a = .ok b) l r := by
  induction l generalizing r with
  | nil => simp [pure, Except.pure]
  | cons a l ih => simp [bind, bind_ok_iff, pure, Except.pure, ih, List.forall₂_cons_left_iff, @eq_comm _ r]

end Lib.Joined
