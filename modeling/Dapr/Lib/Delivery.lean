import Mathlib.Data.List.Basic
/-!
# Messages delivered in order

A sender appends messages to a log and a receiver handles them in that order, at its own
pace: after `seen` of them its state is a fold over the first `seen` messages. What a sender
can rely on without knowing how far the receiver is, it knows of every state the receiver
is still to go through (`Ahead`), or of every state from a given message on (`Since`); an
acknowledgement turns the second into the first.
-/

namespace Lib.Delivery

open List

/-- A receiver: its first state and how it handles a message. -/
structure Receiver (σ μ : Type) where
  init : σ
  handle : σ → μ → σ

namespace Receiver
variable {σ μ : Type} (R : Receiver σ μ)

/-- The state after the first `k` messages of a log. -/
def after (log : List μ) (k : Nat) : σ := (log.take k).foldl R.handle R.init

theorem after_append (log more : List μ) {k : Nat} (h : k ≤ log.length) :
    R.after (log ++ more) k = R.after log k := by
  rw [after, after, take_append_of_le_length h]

theorem after_snoc (log : List μ) (m : μ) :
    R.after (log ++ [m]) (log.length + 1) = R.handle (R.after log log.length) m := by
  have hfull : (log ++ [m]).take (log.length + 1) = log ++ [m] := take_of_length_le (by simp)
  rw [after, hfull, after, take_length, foldl_append]
  rfl

/-- What holds at first and is kept by every message of the log holds at every point of it. -/
theorem after_induction {log : List μ} (Q : σ → Prop) (h0 : Q R.init)
    (hstep : ∀ s, ∀ m ∈ log, Q s → Q (R.handle s m)) (k : Nat) : Q (R.after log k) := by
  have hfold : ∀ (l : List μ) (s : σ), (∀ m ∈ l, m ∈ log) → Q s → Q (l.foldl R.handle s) := by
    intro l
    induction l with
    | nil => exact fun _ _ hs => hs
    | cons m l ih =>
      intro s hl hs
      exact ih _ (fun m' hm' => hl m' (mem_cons_of_mem _ hm')) (hstep s m (hl m mem_cons_self) hs)
  exact hfold _ _ (fun m hm => mem_of_mem_take hm) h0

/-! ## What is still to come -/

/-- A receiver that handled `seen` messages meets `Q` now and at every later point of the log. -/
def Ahead (seen : Nat) (log : List μ) (Q : σ → Prop) : Prop :=
  ∀ k, seen ≤ k → k ≤ log.length → Q (R.after log k)

/-- Once the receiver handled a message that satisfies `p`, it meets `Q` to the end of the log. -/
def Since (p : μ → Prop) (log : List μ) (Q : σ → Prop) : Prop :=
  ∀ q m, log[q]? = some m → p m → ∀ k, q < k → k ≤ log.length → Q (R.after log k)

variable {R} {seen seen' : Nat} {log : List μ} {m : μ} {p : μ → Prop} {Q Q' : σ → Prop}

section
variable (h : R.Ahead seen log Q)
include h

theorem Ahead.now (hs : seen ≤ log.length) : Q (R.after log seen) :=
  h seen (Nat.le_refl seen) hs

theorem Ahead.last (hs : seen ≤ log.length) : Q (R.after log log.length) :=
  h log.length hs (Nat.le_refl _)

theorem Ahead.imp (himp : ∀ s, Q s → Q' s) : R.Ahead seen log Q' :=
  fun k hk hle => himp _ (h k hk hle)

theorem Ahead.later (hle : seen ≤ seen') : R.Ahead seen' log Q :=
  fun k hk => h k (Nat.le_trans hle hk)

/-- A new message keeps what holds ahead if handling it at the end of the log does. -/
theorem Ahead.snoc (hs : seen ≤ log.length)
    (hstep : Q (R.after log log.length) → Q (R.handle (R.after log log.length) m)) :
    R.Ahead seen (log ++ [m]) Q := by
  intro k hk hle
  rcases Nat.lt_or_ge log.length k with hlt | hin
  · have heq : k = log.length + 1 := by simp at hle; omega
    rw [heq, after_snoc]
    exact hstep (h.last hs)
  · rw [after_append R log [m] hin]
    exact h k hk hin

/-- Several new messages, each of which keeps `Q`. -/
theorem Ahead.append {ms : List μ} (hs : seen ≤ log.length)
    (hstep : ∀ m ∈ ms, ∀ s, Q s → Q (R.handle s m)) : R.Ahead seen (log ++ ms) Q := by
  induction ms generalizing log with
  | nil => rwa [append_nil]
  | cons m ms ih =>
    have hsnoc : R.Ahead seen (log ++ [m]) Q := h.snoc hs (hstep m mem_cons_self _)
    have := ih hsnoc (by simp; omega) fun m' hm' => hstep m' (mem_cons_of_mem _ hm')
    rwa [append_assoc] at this

end

theorem Since.snoc (h : R.Since p log Q) (hm : ¬ p m)
    (hstep : Q (R.after log log.length) → Q (R.handle (R.after log log.length) m)) :
    R.Since p (log ++ [m]) Q := by
  intro q m' hq hp k hk hle
  have hlt : q < log.length := by
    by_contra hge
    rw [getElem?_append_right (by omega)] at hq
    have hmem : m' ∈ [m] := mem_of_getElem? hq
    rw [mem_singleton.1 hmem] at hp
    exact hm hp
  rw [getElem?_append_left hlt] at hq
  rcases Nat.lt_or_ge log.length k with hgt | hin
  · have heq : k = log.length + 1 := by simp at hle; omega
    rw [heq, after_snoc]
    exact hstep (h q m' hq hp _ hlt (Nat.le_refl _))
  · rw [after_append R log [m] hin]
    exact h q m' hq hp k hk hin

/-- The first message that satisfies `p`: what holds once it is handled holds since. -/
theorem Since.first (hnone : ∀ m' ∈ log, ¬ p m') (hQ : Q (R.handle (R.after log log.length) m)) :
    R.Since p (log ++ [m]) Q := by
  intro q m' hq hp k hk hle
  have hge : log.length ≤ q := by
    by_contra hlt
    rw [getElem?_append_left (by omega)] at hq
    exact hnone m' (mem_of_getElem? hq) hp
  have heq : k = log.length + 1 := by simp at hle; omega
  rw [heq, after_snoc]
  exact hQ

/-- The receiver has handled a message that satisfies `p`. -/
theorem Since.ahead (h : R.Since p log Q) {q : Nat} (hq : log[q]? = some m) (hp : p m) (hlt : q < seen) :
    R.Ahead seen log Q :=
  fun k hk => h q m hq hp k (Nat.lt_of_lt_of_le hlt hk)

end Receiver

end Lib.Delivery
