import Mathlib.Data.List.Basic
/-!
# Encodings of bytes

Hexadecimal digits, and base64 with the standard alphabet and padding.

In base64 three bytes are written as four digits of six bits; the last one or two bytes are padded. A
reader skips line ends, and refuses what is not in the alphabet and what follows the padding. Bits
that the padding cuts off may have any value.
-/

namespace Lib

open List

abbrev Bytes := List UInt8

/-! ## Hexadecimal -/

namespace Hex

def value (c : UInt8) : Option Nat :=
  if 48 ≤ c.toNat ∧ c.toNat ≤ 57 then some (c.toNat - 48)
  else if 97 ≤ c.toNat ∧ c.toNat ≤ 102 then some (c.toNat - 87)
  else if 65 ≤ c.toNat ∧ c.toNat ≤ 70 then some (c.toNat - 55)
  else none

def decode : Bytes → Option Bytes
  | [] => some []
  | [_] => none
  | a :: b :: rest => do
    let high ← value a
    let low ← value b
    let bytes ← decode rest
    return .ofNat (high * 16 + low) :: bytes

end Hex

/-! ## Base64 -/

namespace Base64

def pad : UInt8 := 61

/-- The digit of six bits. -/
def digit (n : Nat) : UInt8 :=
  if n < 26 then .ofNat (65 + n)
  else if n < 52 then .ofNat (71 + n)
  else if n < 62 then .ofNat (n - 4)
  else if n = 62 then 43
  else 47

def value (c : UInt8) : Option Nat :=
  if 65 ≤ c.toNat ∧ c.toNat ≤ 90 then some (c.toNat - 65)
  else if 97 ≤ c.toNat ∧ c.toNat ≤ 122 then some (c.toNat - 71)
  else if 48 ≤ c.toNat ∧ c.toNat ≤ 57 then some (c.toNat + 4)
  else if c = 43 then some 62
  else if c = 47 then some 63
  else none

def encode : Bytes → Bytes
  | [] => []
  | [a] => [digit (a.toNat / 4), digit (a.toNat % 4 * 16), pad, pad]
  | [a, b] => [digit (a.toNat / 4), digit (a.toNat % 4 * 16 + b.toNat / 16), digit (b.toNat % 16 * 4), pad]
  | a :: b :: c :: rest =>
    digit (a.toNat / 4) :: digit (a.toNat % 4 * 16 + b.toNat / 16) ::
      digit (b.toNat % 16 * 4 + c.toNat / 64) :: digit (c.toNat % 64) :: encode rest

/-- The bytes of the digits, four at a time. -/
def decodeQuanta : Bytes → Option Bytes
  | [] => some []
  | p :: q :: r :: s :: rest =>
    match value p, value q, value r, value s with
    | some p, some q, some r, some s =>
      (decodeQuanta rest).map
        ([.ofNat (p * 4 + q / 16), .ofNat (q % 16 * 16 + r / 4), .ofNat (r % 4 * 64 + s)] ++ ·)
    | some p, some q, some r, none =>
      if s = pad ∧ rest = [] then some [.ofNat (p * 4 + q / 16), .ofNat (q % 16 * 16 + r / 4)] else none
    | some p, some q, none, none => if r = pad ∧ s = pad ∧ rest = [] then some [.ofNat (p * 4 + q / 16)] else none
    | _, _, _, _ => none
  | _ => none

def isLineEnd (c : UInt8) : Bool := c = 10 || c = 13

def decode (text : Bytes) : Option Bytes := decodeQuanta (text.filter (!isLineEnd ·))

/-! ### The digits -/

theorem value_digit {n : Nat} (h : n < 64) : value (digit n) = some n := by
  have hall : ∀ n : Fin 64, value (digit n) = some n.val := by decide
  exact hall ⟨n, h⟩

/-- What a text may hold: digits and padding. -/
def InAlphabet (c : UInt8) : Prop := c = pad ∨ (value c).isSome = true

theorem inAlphabet_digit {n : Nat} (h : n < 64) : InAlphabet (digit n) := .inr (by rw [value_digit h]; rfl)

theorem not_isLineEnd_of_inAlphabet {c : UInt8} (h : InAlphabet c) : isLineEnd c = false := by
  have hten : ¬ InAlphabet 10 := by rintro (h | h) <;> revert h <;> decide
  have hthirteen : ¬ InAlphabet 13 := by rintro (h | h) <;> revert h <;> decide
  simp only [isLineEnd, Bool.or_eq_false_iff, decide_eq_false_iff_not]
  exact ⟨fun heq => hten (heq ▸ h), fun heq => hthirteen (heq ▸ h)⟩

theorem inAlphabet_encode (bytes : Bytes) : ∀ c ∈ encode bytes, InAlphabet c := by
  induction bytes using encode.induct with
  | case1 => simp [encode]
  | case2 a =>
    have := a.toNat_lt
    simp only [encode, forall_mem_cons]
    exact ⟨inAlphabet_digit (by omega), inAlphabet_digit (by omega), .inl rfl, .inl rfl, by simp⟩
  | case3 a b =>
    have := a.toNat_lt
    have := b.toNat_lt
    simp only [encode, forall_mem_cons]
    exact ⟨inAlphabet_digit (by omega), inAlphabet_digit (by omega), inAlphabet_digit (by omega), .inl rfl, by simp⟩
  | case4 a b c rest ih =>
    have := a.toNat_lt
    have := b.toNat_lt
    have := c.toNat_lt
    simp only [encode, forall_mem_cons]
    exact ⟨inAlphabet_digit (by omega), inAlphabet_digit (by omega), inAlphabet_digit (by omega),
      inAlphabet_digit (by omega), ih⟩

/-! ### Reading back -/

theorem decodeQuanta_encode (bytes : Bytes) : decodeQuanta (encode bytes) = some bytes := by
  have hpad : value pad = none := by decide
  have hbyte : ∀ (a : UInt8) (n : Nat), n = a.toNat → UInt8.ofNat n = a := by
    rintro a _ rfl
    exact UInt8.ofNat_toNat
  induction bytes using encode.induct with
  | case1 => rfl
  | case2 a =>
    have := a.toNat_lt
    simp only [encode, decodeQuanta, hpad, value_digit (show a.toNat / 4 < 64 by omega),
      value_digit (show a.toNat % 4 * 16 < 64 by omega)]
    simp only [if_true, Option.some.injEq, List.cons.injEq, and_true]
    exact hbyte a _ (by omega)
  | case3 a b =>
    have := a.toNat_lt
    have := b.toNat_lt
    simp only [encode, decodeQuanta, hpad, value_digit (show a.toNat / 4 < 64 by omega),
      value_digit (show a.toNat % 4 * 16 + b.toNat / 16 < 64 by omega),
      value_digit (show b.toNat % 16 * 4 < 64 by omega)]
    simp only [if_true, Option.some.injEq, List.cons.injEq, and_true]
    exact ⟨hbyte a _ (by omega), hbyte b _ (by omega)⟩
  | case4 a b c rest ih =>
    have := a.toNat_lt
    have := b.toNat_lt
    have := c.toNat_lt
    simp only [encode, decodeQuanta, value_digit (show a.toNat / 4 < 64 by omega),
      value_digit (show a.toNat % 4 * 16 + b.toNat / 16 < 64 by omega),
      value_digit (show b.toNat % 16 * 4 + c.toNat / 64 < 64 by omega),
      value_digit (show c.toNat % 64 < 64 by omega), ih]
    simp only [Option.map_some, cons_append, nil_append, Option.some.injEq, List.cons.injEq, and_true]
    exact ⟨hbyte a _ (by omega), hbyte b _ (by omega), hbyte c _ (by omega)⟩

theorem decode_encode (bytes : Bytes) : decode (encode bytes) = some bytes := by
  have hkeep : (encode bytes).filter (!isLineEnd ·) = encode bytes := by
    rw [filter_eq_self]
    intro c hc
    rw [not_isLineEnd_of_inAlphabet (inAlphabet_encode bytes c hc)]
    rfl
  rw [decode, hkeep, decodeQuanta_encode]

/-! ### What is refused -/

theorem inAlphabet_of_decodeQuanta {text bytes : Bytes} (h : decodeQuanta text = some bytes) :
    ∀ c ∈ text, InAlphabet c := by
  have hdigit : ∀ {c n}, value c = some n → InAlphabet c := fun hc => .inr (by rw [hc]; rfl)
  match text with
  | [] => simp
  | [_] | [_, _] | [_, _, _] => cases h
  | p :: q :: r :: s :: rest =>
    simp only [forall_mem_cons]
    simp only [decodeQuanta] at h
    split at h
    · next hp hq hr hs =>
      obtain ⟨tail, htail, -⟩ := Option.map_eq_some_iff.1 h
      exact ⟨hdigit hp, hdigit hq, hdigit hr, hdigit hs, inAlphabet_of_decodeQuanta htail⟩
    · next hp hq hr hs =>
      split at h
      · next hend => exact ⟨hdigit hp, hdigit hq, hdigit hr, .inl hend.1, by simp [hend.2]⟩
      · cases h
    · next hp hq hr hs =>
      split at h
      · next hend => exact ⟨hdigit hp, hdigit hq, .inl hend.1, .inl hend.2.1, by simp [hend.2.2]⟩
      · cases h
    · cases h

/-- A text with a byte that is no digit, no padding and no line end is refused. -/
theorem decode_eq_none {text : Bytes} {c : UInt8} (hmem : c ∈ text) (hend : isLineEnd c = false)
    (hc : ¬ InAlphabet c) : decode text = none := by
  cases h : decode text with
  | none => rfl
  | some bytes =>
    exact absurd (inAlphabet_of_decodeQuanta h c (mem_filter.2 ⟨hmem, by rw [hend]; rfl⟩)) hc

end Base64

end Lib
