import Dapr.Lib.Rows
/-!
# The rows of a workflow instance

An instance's state is spread over one metadata row, four optional rows and five families
of numbered rows. The model addresses them by `Key`; `Key.name` is the key as the state
store sees it, and `Key.name_injective` says that the two are the same thing.
-/

namespace Dapr.Workflow

open List

/-- The five numbered key families. -/
inductive Family where
  | inbox
  | history
  | sigcert
  | extSigCert
  | signature
  deriving DecidableEq, Repr

def Family.keyPrefix : Family → String
  | .inbox => "inbox"
  | .history => "history"
  | .sigcert => "sigcert"
  | .extSigCert => "ext-sigcert"
  | .signature => "signature"

/-- The rows of an instance. -/
inductive Key where
  | entry (f : Family) (i : Nat)
  | customStatus
  | metadata
  | parentNotify
  | propagatedHistory
  | creationInput
  deriving DecidableEq, Repr

def getMultiEntryKeyName (keyPrefix : String) (i : Nat) : String :=
  let s := i.repr
  keyPrefix ++ "-" ++ String.ofList (replicate (6 - s.length) '0') ++ s

def Key.name : Key → String
  | .entry f i => getMultiEntryKeyName f.keyPrefix i
  | .customStatus => "customStatus"
  | .metadata => "metadata"
  | .parentNotify => "parent-notify"
  | .propagatedHistory => "propagated-history"
  | .creationInput => "creation-input"

/-! ## Key names tell the keys apart -/

/-- The number of an entry as it is written in its key. -/
def paddedDigits (i : Nat) : List Char :=
  replicate (6 - i.repr.length) '0' ++ Nat.toDigits 10 i

theorem toList_getMultiEntryKeyName (p : String) (i : Nat) :
    (getMultiEntryKeyName p i).toList = p.toList ++ '-' :: paddedDigits i := by
  simp [getMultiEntryKeyName, paddedDigits]

theorem isDigit_of_mem_paddedDigits {i : Nat} {c : Char} (h : c ∈ paddedDigits i) : c.isDigit := by
  rcases mem_append.1 h with h | h
  · rw [eq_of_mem_replicate h]; rfl
  · exact Nat.isDigit_of_mem_toDigits (by decide) (by decide) h

theorem dash_notMem_paddedDigits (i : Nat) : '-' ∉ paddedDigits i :=
  fun h => absurd (isDigit_of_mem_paddedDigits h) (by decide)

theorem paddedDigits_ne_nil (i : Nat) : paddedDigits i ≠ [] := by
  simp [paddedDigits]

theorem paddedDigits_injective : Function.Injective paddedDigits := by
  -- leading zeros do not change the value of a digit string
  have hval (i : Nat) : Nat.ofDigitChars 10 (paddedDigits i) 0 = i := by
    rw [paddedDigits, Nat.ofDigitChars_append, Nat.ofDigitChars_replicate_zero, Nat.mul_zero,
      Nat.ofDigitChars_ten_toDigits]
  intro i j h
  rw [← hval i, h, hval j]

theorem split_last_dash {p p' d d' : List Char} (hd : '-' ∉ d) (hd' : '-' ∉ d')
    (h : p ++ '-' :: d = p' ++ '-' :: d') : p = p' ∧ d = d' := by
  rcases append_eq_append_iff.1 h with ⟨a, rfl, ha⟩ | ⟨a, rfl, ha⟩
  · cases a with
    | nil => simpa using ha
    | cons c a => simp only [cons_append, List.cons.injEq] at ha; simp [ha.2] at hd
  · cases a with
    | nil => simpa [eq_comm] using ha
    | cons c a => simp only [cons_append, List.cons.injEq] at ha; simp [ha.2] at hd'

theorem Family.keyPrefix_injective : Function.Injective Family.keyPrefix := by
  intro f g h
  cases f <;> cases g <;> first | rfl | simp [Family.keyPrefix] at h

/-- An entry's key ends in a digit, and no other key does. -/
theorem getLast_name_entry (f : Family) (i : Nat) :
    ∃ c, (Key.entry f i).name.toList.getLast? = some c ∧ c.isDigit := by
  have hne := paddedDigits_ne_nil i
  refine ⟨(paddedDigits i).getLast hne, ?_, isDigit_of_mem_paddedDigits (getLast_mem hne)⟩
  rw [Key.name, toList_getMultiEntryKeyName, getLast?_append_of_ne_nil _ (by simp),
    getLast?_cons, getLast?_eq_some_getLast hne, Option.getD_some]

theorem name_entry_ne {k : Key} (hk : ∀ f i, k ≠ .entry f i) (f : Family) (i : Nat) :
    (Key.entry f i).name ≠ k.name := by
  intro h
  obtain ⟨c, hc, hd⟩ := getLast_name_entry f i
  have hlast : k.name.toList.getLast?.any Char.isDigit = true := by
    rw [← h, hc]
    exact hd
  cases k with
  | entry g j => exact hk g j rfl
  | _ => exact absurd hlast (by decide)

theorem Key.name_injective : Function.Injective Key.name := by
  intro k k' h
  cases k with
  | entry f i =>
    cases k' with
    | entry g j =>
      have hl := congrArg String.toList h
      simp only [Key.name, toList_getMultiEntryKeyName] at hl
      obtain ⟨hp, hd⟩ := split_last_dash (dash_notMem_paddedDigits i) (dash_notMem_paddedDigits j) hl
      rw [Family.keyPrefix_injective (String.toList_inj.1 hp), paddedDigits_injective hd]
    | _ => exact absurd h (name_entry_ne (by simp) f i)
  | _ =>
    cases k' with
    | entry g j => exact absurd h.symm (name_entry_ne (by simp) g j)
    | _ => first | rfl | simp [Key.name] at h

/-- The keys written together: a whole family, or one key by itself. -/
def Key.group : Key → Key
  | .entry f _ => .entry f 0
  | k => k

theorem entry_injective (f : Family) : Function.Injective (Key.entry f) := fun i j h => by
  simpa using h

end Dapr.Workflow
