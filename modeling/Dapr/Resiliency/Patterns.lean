import Dapr.Resiliency.Retry
import Mathlib.Algebra.Ring.Int.Defs
/-!
# Lists of status codes

The codes that are retried are written as numbers and ranges, separated by commas. The numbers are read as 64 bit
integers and cut down to 32 bits before they are checked.
-/

namespace Dapr.Resiliency

/-- A text. -/
abbrev Chars := List Char

deriving instance DecidableEq for CodeRange

def digits (s : Chars) : Option Nat :=
  if s ≠ [] ∧ s.all Char.isDigit = true then some (s.foldl (fun n c => 10 * n + (c.toNat - '0'.toNat)) 0) else none

/-- The number that a text is in decimal, with or without a sign. -/
def number : Chars → Option Int
  | '-' :: s => (digits s).map fun n => -n
  | '+' :: s => (digits s).map fun n => n
  | s => (digits s).map fun n => n

/-- Of the error only that there is one. -/
def atoi (s : Chars) : Option Int := (number s).filter fun n => -2 ^ 63 ≤ n ∧ n < 2 ^ 63

def compilePattern (pattern : Chars) (validRange : CodeRange) : Except String CodeRange :=
  let text := String.ofList pattern
  match pattern.splitOn '-' with
  -- a text has at least one part
  | [] => .error ""
  | first :: others =>
    if others.length > 1 then .error s!"invalid pattern {text}, more than one '-' exists"
    else match atoi first with
      | none => .error s!"failed to parse start code {String.ofList first} from pattern {text} to int"
      | some startint =>
        let start := Int32.ofInt startint
        if validRange.matchCode start = false then
          .error s!"invalid pattern {text}, start code {start} is not valid"
        else match others.head?.elim (some startint) atoi with
          | none => .error s!"failed to parse end code {String.ofList (others.headD [])} from pattern {text} to int"
          | some endint =>
            let endCode := Int32.ofInt endint
            if validRange.matchCode endCode = false then
              .error s!"invalid pattern {text}, end code {endCode} is not valid"
            else if endCode < start then
              .error s!"invalid pattern {text}, start value should not bigger than end value"
            else .ok ⟨start, endCode⟩

def compilePatterns (validRange : CodeRange) : List Chars → Except String (List CodeRange)
  | [] => .ok []
  | p :: rest =>
    -- empty patterns are ignored
    if p = [] then compilePatterns validRange rest
    else match compilePattern p validRange with
      | .error err => .error err
      | .ok parsed => (compilePatterns validRange rest).map (parsed :: ·)

/-- Without patterns there are no ranges to match. -/
def parsePatterns (patterns : Chars) (validRange : CodeRange) : Except String (Option (List CodeRange)) :=
  if patterns = [] then .ok none else (compilePatterns validRange (patterns.splitOn ',')).map some

/-! ## What is written -/

/-- The first and the last number that a pattern names. -/
def written (p : Chars) : Option (Int × Int) :=
  match p.splitOn '-' with
  | [a] => (number a).map fun n => (n, n)
  | [a, b] => (number a).bind fun m => (number b).map fun n => (m, n)
  | _ => none

/-- The patterns name the integer, or a range it is in. -/
def Writes (patterns : Chars) (c : Int) : Prop :=
  ∃ p ∈ patterns.splitOn ',', ∃ x ∈ written p, x.1 ≤ c ∧ c ≤ x.2

/-- The ranges are the written ones. -/
def Exact (patterns : Chars) (ranges : List CodeRange) : Prop :=
  ∀ c, mustRetryStatusCode c (some ranges) = true ↔ Writes patterns c.toInt

/-- What a written range is taken for. -/
def cutDown (x : Int × Int) : CodeRange := ⟨.ofInt x.1, .ofInt x.2⟩

/-- The numbers are of 32 bits. -/
abbrev Fits (x : Int × Int) : Prop := (-2 ^ 31 ≤ x.1 ∧ x.1 < 2 ^ 31) ∧ (-2 ^ 31 ≤ x.2 ∧ x.2 < 2 ^ 31)

/-- The numbers are of 32 bits; or they name no code, and the codes that they are taken for are written anyway. -/
def Harmless (patterns : Chars) (x : Int × Int) : Prop :=
  Fits x ∨
    ∀ c : Int32, ¬(x.1 ≤ c.toInt ∧ c.toInt ≤ x.2) ∧ ((cutDown x).matchCode c = true → Writes patterns c.toInt)

variable {p patterns : Chars} {v r : CodeRange} {ps : List Chars} {rs : List CodeRange} {c : Int32} {n : Int}

theorem matchCode_iff : r.matchCode c = true ↔ r.start.toInt ≤ c.toInt ∧ c.toInt ≤ r.endCode.toInt := by
  simp [CodeRange.matchCode, Int32.le_iff_toInt_le]

theorem Fits.matchCode_cutDown {x : Int × Int} (h : Fits x) :
    (cutDown x).matchCode c = true ↔ x.1 ≤ c.toInt ∧ c.toInt ≤ x.2 := by
  rw [matchCode_iff, cutDown, Int32.toInt_ofInt_of_le h.1.1 h.1.2, Int32.toInt_ofInt_of_le h.2.1 h.2.2]

theorem number_of_atoi {s : Chars} (h : atoi s = some n) : number s = some n := (Option.filter_eq_some_iff.1 h).1

theorem compilePattern_ok (h : compilePattern p v = .ok r) :
    (∃ x, written p = some x ∧ r = cutDown x) ∧ v.matchCode r.start = true ∧ v.matchCode r.endCode = true := by
  unfold compilePattern at h
  unfold written
  split at h
  · cases h
  · next first others hsplit =>
    rw [hsplit]
    dsimp only at h
    -- each test that fails ends with an error
    iterate 6
      split at h
      · cases h
    rename_i hlen _ startint hstart hvalid _ endint hend hvalid' _
    cases h
    refine ⟨⟨(startint, endint), ?_, rfl⟩, by simpa using hvalid, by simpa using hvalid'⟩
    rcases others with _ | ⟨last, _ | ⟨x, rest⟩⟩
    · cases hend
      simp [number_of_atoi hstart]
    · simp [number_of_atoi hstart, number_of_atoi hend]
    · simp at hlen

/-- A code is matched if some pattern is taken for a range with it. -/
theorem compilePatterns_ok (h : compilePatterns v ps = .ok rs) :
    (∀ c, mustRetryStatusCode c (some rs) = true ↔ ∃ p ∈ ps, ∃ x ∈ written p, (cutDown x).matchCode c = true) ∧
      ∀ r ∈ rs, v.matchCode r.start = true ∧ v.matchCode r.endCode = true := by
  induction ps generalizing rs with
  | nil =>
    cases h
    simp [mustRetryStatusCode]
  | cons p ps ih =>
    unfold compilePatterns at h
    split at h
    · next hnil =>
      have hnone : written p = none := by rw [hnil]; rfl
      simpa [hnone] using ih h
    · split at h
      · cases h
      · next r hr =>
        obtain ⟨⟨x, hx, rfl⟩, hvalid⟩ := compilePattern_ok hr
        cases hrest : compilePatterns v ps with
        | error err =>
          rw [hrest] at h
          cases h
        | ok rest =>
          rw [hrest] at h
          cases h
          obtain ⟨hmatch, hall⟩ := ih hrest
          simp only [mustRetryStatusCode, List.any_cons, Bool.or_eq_true] at hmatch ⊢
          refine ⟨fun c => ?_, List.forall_mem_cons.2 ⟨hvalid, hall⟩⟩
          simp only [hmatch, List.mem_cons, exists_eq_or_imp, hx, Option.mem_def, Option.some.injEq, exists_eq_left']

theorem compiled_of_parsed (h : parsePatterns patterns v = .ok (some rs)) :
    compilePatterns v (patterns.splitOn ',') = .ok rs := by
  unfold parsePatterns at h
  split at h
  · cases h
  · cases hc : compilePatterns v (patterns.splitOn ',') with
    | error err =>
      rw [hc] at h
      cases h
    | ok rs =>
      rw [hc] at h
      cases h
      rfl

/-- What is matched has at most three digits. -/
theorem bounds_of_matched (hv : v = validHTTPStatusCodeRange ∨ v = validGRPCStatusCodeRange)
    (hall : ∀ r ∈ rs, v.matchCode r.start = true ∧ v.matchCode r.endCode = true)
    (hc : mustRetryStatusCode c (some rs) = true) : 0 ≤ c.toInt ∧ c.toInt ≤ 599 := by
  obtain ⟨r, hr, hc⟩ := List.any_eq_true.1 hc
  obtain ⟨hstart, hend⟩ := hall r hr
  rw [matchCode_iff] at hc hstart hend
  have hbounds : 0 ≤ v.start.toInt ∧ v.endCode.toInt ≤ 599 := by
    rcases hv with rfl | rfl <;> decide
  omega

/-- What is accepted is judged as it is written if, and only if, every number has 32 bits or does no harm. -/
theorem patterns_exact_iff (hv : v = validHTTPStatusCodeRange ∨ v = validGRPCStatusCodeRange)
    (h : parsePatterns patterns v = .ok (some rs)) :
    Exact patterns rs ↔ ∀ p ∈ patterns.splitOn ',', ∀ x ∈ written p, Harmless patterns x := by
  obtain ⟨hmatch, hall⟩ := compilePatterns_ok (compiled_of_parsed h)
  constructor
  · intro hexact p hp x hx
    by_cases hfits : Fits x
    · exact .inl hfits
    · refine .inr fun c => ⟨fun hc => ?_, fun hc => (hexact c).1 ((hmatch c).2 ⟨p, hp, x, hx, hc⟩)⟩
      -- with this code the lowest or the highest one is written, and no list matches these
      have hout : ∀ c : Int32, x.1 ≤ c.toInt ∧ c.toInt ≤ x.2 → 0 ≤ c.toInt ∧ c.toInt ≤ 599 := fun c hc =>
        bounds_of_matched hv hall ((hexact c).2 ⟨p, hp, x, hx, hc⟩)
      have hlow := hout Int32.minValue
      have hhigh := hout Int32.maxValue
      rw [show Int32.minValue.toInt = -2 ^ 31 from rfl] at hlow
      rw [show Int32.maxValue.toInt = 2 ^ 31 - 1 from rfl] at hhigh
      have := c.le_toInt
      have := c.toInt_lt
      omega
  · intro hharmless c
    rw [hmatch]
    constructor
    · rintro ⟨p, hp, x, hx, hc⟩
      rcases hharmless p hp x hx with hfits | hother
      · exact ⟨p, hp, x, hx, hfits.matchCode_cutDown.1 hc⟩
      · exact (hother c).2 hc
    · rintro ⟨p, hp, x, hx, hc⟩
      rcases hharmless p hp x hx with hfits | hother
      · exact ⟨p, hp, x, hx, hfits.matchCode_cutDown.2 hc⟩
      · exact absurd hc (hother c).1

theorem patterns_exact_iff_retriable : Exact "429,500-503".toList [⟨429, 429⟩, ⟨500, 503⟩] := by
  refine (patterns_exact_iff (.inl rfl) (by decide +kernel)).2 fun p hp x hx => .inl ?_
  have hall : ∀ p ∈ "429,500-503".toList.splitOn ',', ∀ x ∈ written p, Fits x := by decide +kernel
  exact hall p hp x hx

/-- A number beyond 32 bits is taken for what is left of it. -/
theorem number_cut_down :
    parsePatterns "4294967396".toList validHTTPStatusCodeRange = .ok (some [⟨100, 100⟩]) ∧
      mustRetryStatusCode 100 (some [⟨100, 100⟩]) = true ∧ ¬ Writes "4294967396".toList 100 := by
  unfold Writes
  decide +kernel

end Dapr.Resiliency
