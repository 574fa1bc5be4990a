import Dapr.Acl.Trie
import Mathlib.Data.List.Count
import Mathlib.Data.List.TakeWhile
/-!
# Canonical operations

The operation of an HTTP invocation is compared in the form in which an app may route it: escapes are
decoded once, path parameters are dropped, letters are lower case. An escaped star stays escaped.

Lower-casing is that of the whole of Unicode; nothing depends on what it does to a letter, so it is a
parameter.
-/

namespace Dapr.Acl

open List

variable (text : Text)

def percent : UInt8 := 37

def semicolon : UInt8 := 59

def dot : UInt8 := 46

/-- The escaped star, in lower case. -/
def escapedStar : Text := [percent, 50, 97]

/-- Nothing comes of an invalid escape. -/
def pathUnescape : Text → Option Text
  | [] => some []
  | [a] => if a = percent then none else some [a]
  | [a, b] => if a = percent ∨ b = percent then none else some [a, b]
  | a :: b :: c :: rest =>
    if a = percent then
      match Lib.Hex.value b, Lib.Hex.value c with
      | some high, some low => (pathUnescape rest).map (.ofNat (high * 16 + low) :: ·)
      | _, _ => none
    else (pathUnescape (b :: c :: rest)).map (a :: ·)

/-- Every escaped star is written in lower case. -/
def replaceStars : Text → Text
  | a :: b :: c :: rest =>
    if a = percent ∧ b = 50 ∧ c = 65 then escapedStar ++ replaceStars rest else a :: replaceStars (b :: c :: rest)
  | rest => rest

/-- The parts between the escaped stars. -/
def splitStars : Text → List Text
  | a :: b :: c :: rest =>
    if [a, b, c] = escapedStar then [] :: splitStars rest else (splitStars (b :: c :: rest)).modifyHead (a :: ·)
  | rest => [rest]

/-- What is before the first semicolon. -/
def cut (seg : Text) : Text := seg.takeWhile (· ≠ semicolon)

/-- A segment that an app would not route as it stands, once its parameters are dropped. -/
def isUnroutable (seg : Text) : Bool := cut seg = [dot] || cut seg = [dot, dot] || (semicolon ∈ seg && cut seg = [])

/-- The forms of an operation, and whether it can be routed. -/
structure Canonical where
  decoded : Text
  stripped : Text
  ok : Bool
  deriving DecidableEq, Repr

/-- The operation with its escapes decoded, if it can be decoded without new slashes. -/
def decodeOperation (op : Text) : Text × Bool :=
  match (splitStars (replaceStars op)).mapM pathUnescape with
  | none => (op, false)
  | some parts =>
    let decoded := escapedStar.intercalate parts
    if decoded.count slash = op.count slash then (decoded, true) else (op, false)

def stripParameters (decoded : Text) : Text := [slash].intercalate ((decoded.splitOn slash).map cut)

def canonicalHTTPOperation (lower : Text → Text) (op : Text) : Canonical :=
  let (decoded, ok) := decodeOperation op
  ⟨lower decoded, lower (stripParameters decoded), ok && (decoded.splitOn slash).all (!isUnroutable ·)⟩

def withSlash (op : Text) : Text := if [slash].isPrefixOf op then op else slash :: op

/-- The path of an operation in the trie: what is before the first slash is not looked at. -/
def pathOf (op : Text) : Path := (op.splitOn slash).tail.map (slash :: ·)

/-! ## A text as an operation -/

/-- The operation that is decoded to a text: its percent signs are escaped. -/
def escape (text : Text) : Text := text.flatMap fun c => if c = percent then [percent, 50, 53] else [c]

theorem escape_cons_percent : escape (percent :: text) = percent :: 50 :: 53 :: escape text := rfl

variable {a c : UInt8} {seg text : Text} {lower : Text → Text}

theorem escape_cons (h : c ≠ percent) : escape (c :: text) = c :: escape text := by
  simp [escape, h]

theorem replaceStars_cons (h : a ≠ percent) (l : Text) : replaceStars (a :: l) = a :: replaceStars l := by
  match l with
  | [] | [_] => rfl
  | b :: c :: l => simp [replaceStars, h]

theorem splitStars_cons (h : a ≠ percent) (l : Text) : splitStars (a :: l) = (splitStars l).modifyHead (a :: ·) := by
  match l with
  | [] | [_] => rfl
  | b :: c :: l => simp [splitStars, escapedStar, h]

theorem pathUnescape_cons (h : a ≠ percent) (l : Text) : pathUnescape (a :: l) = (pathUnescape l).map (a :: ·) := by
  match l with
  | [] => simp [pathUnescape, h]
  | [b] => by_cases hb : b = percent <;> simp [pathUnescape, h, hb]
  | b :: c :: l => rw [pathUnescape, if_neg h]

theorem replaceStars_escape : replaceStars (escape text) = escape text := by
  induction text with
  | nil => rfl
  | cons c text ih =>
    by_cases hc : c = percent
    · subst hc
      have htail : replaceStars (50 :: 53 :: escape text) = 50 :: 53 :: escape text := by
        rw [replaceStars_cons (by decide), replaceStars_cons (by decide), ih]
      rw [escape_cons_percent, replaceStars, if_neg (by decide), htail]
    · rw [escape_cons hc, replaceStars_cons hc, ih]

theorem splitStars_escape : splitStars (escape text) = [escape text] := by
  induction text with
  | nil => rfl
  | cons c text ih =>
    by_cases hc : c = percent
    · subst hc
      have htail : splitStars (50 :: 53 :: escape text) = [50 :: 53 :: escape text] := by
        rw [splitStars_cons (by decide), splitStars_cons (by decide), ih]
        rfl
      rw [escape_cons_percent, splitStars, htail]
      rfl
    · rw [escape_cons hc, splitStars_cons hc, ih]
      rfl

theorem pathUnescape_escape : pathUnescape (escape text) = some text := by
  induction text with
  | nil => rfl
  | cons c text ih =>
    by_cases hc : c = percent
    · subst hc
      have hhex : Lib.Hex.value 50 = some 2 ∧ Lib.Hex.value 53 = some 5 := by decide
      rw [escape_cons_percent, pathUnescape, hhex.1, hhex.2]
      simp [ih, percent]
    · rw [escape_cons hc, pathUnescape_cons hc, ih]
      rfl

theorem count_slash_escape : (escape text).count slash = text.count slash := by
  induction text with
  | nil => rfl
  | cons c text ih =>
    by_cases hc : c = percent
    · subst hc
      rw [escape_cons_percent]
      simpa [count_cons, slash] using ih
    · rw [escape_cons hc, count_cons, count_cons, ih]

theorem decodeOperation_escape : decodeOperation (escape text) = (text, true) := by
  rw [decodeOperation, replaceStars_escape, splitStars_escape]
  simp [pathUnescape_escape, count_slash_escape]

/-- A segment has no slash, and nothing that the text has not. -/
theorem mem_of_mem_splitOn (h : seg ∈ text.splitOn slash) : slash ∉ seg ∧ ∀ c ∈ seg, c ∈ text := by
  induction text generalizing seg with
  | nil =>
    obtain rfl : seg = [] := by simpa using h
    simp
  | cons a text ih =>
    rw [splitOn_cons_eq_if_modifyHead] at h
    split at h
    · rcases mem_cons.1 h with rfl | h
      · simp
      · exact ⟨(ih h).1, fun c hc => mem_cons_of_mem _ ((ih h).2 c hc)⟩
    · next hne =>
      cases hsplit : text.splitOn slash with
      | nil => exact absurd hsplit (splitOn_ne_nil _ _)
      | cons first rest =>
        rw [hsplit] at h ih
        rcases mem_cons.1 h with rfl | h
        · obtain ⟨hslash, hmem⟩ := ih mem_cons_self
          refine ⟨?_, ?_⟩
          · have hfirst : slash ≠ a := fun heq => hne (by simp [heq])
            simp [hfirst, hslash]
          · intro c hc
            rcases mem_cons.1 hc with rfl | hc
            · exact mem_cons_self
            · exact mem_cons_of_mem _ (hmem c hc)
        · obtain ⟨hslash, hmem⟩ := ih (mem_cons_of_mem _ h)
          exact ⟨hslash, fun c hc => mem_cons_of_mem _ (hmem c hc)⟩

theorem mem_intercalate_slash {segs : List Text} (h : c ∈ [slash].intercalate segs) :
    c = slash ∨ ∃ seg ∈ segs, c ∈ seg := by
  induction segs with
  | nil => simp at h
  | cons seg segs ih =>
    cases segs with
    | nil => exact .inr ⟨seg, mem_cons_self, by simpa using h⟩
    | cons seg' segs =>
      rw [intercalate_cons_cons] at h
      simp only [append_assoc, mem_append, mem_singleton] at h
      rcases h with h | h | h
      · exact .inr ⟨seg, mem_cons_self, h⟩
      · exact .inl h
      · obtain h | ⟨x, hx, hc⟩ := ih h
        · exact .inl h
        · exact .inr ⟨x, mem_cons_of_mem _ hx, hc⟩

theorem semicolon_notMem_cut (seg : Text) : semicolon ∉ cut seg := by
  intro h
  simpa using mem_takeWhile_imp h

theorem cut_eq_self (h : semicolon ∉ seg) : cut seg = seg := by
  refine takeWhile_eq_self_iff.2 fun c hc => ?_
  simp only [decide_not, Bool.not_eq_true', decide_eq_false_iff_not]
  rintro rfl
  exact h hc

/-- A text whose segments have no parameters and are no dots is the canonical form of its escaped form. -/
theorem canonicalHTTPOperation_escape (hsemi : semicolon ∉ text)
    (hdots : ∀ seg ∈ text.splitOn slash, seg ≠ [dot] ∧ seg ≠ [dot, dot]) :
    canonicalHTTPOperation lower (escape text) = ⟨lower text, lower text, true⟩ := by
  have hcut : ∀ seg ∈ text.splitOn slash, semicolon ∉ seg ∧ cut seg = seg := by
    intro seg hseg
    have hnot : semicolon ∉ seg := fun h => hsemi ((mem_of_mem_splitOn hseg).2 _ h)
    exact ⟨hnot, cut_eq_self hnot⟩
  have hstrip : stripParameters text = text := by
    rw [stripParameters, map_congr_left fun seg hseg => (hcut seg hseg).2, map_id', intercalate_splitOn]
  have hall : (text.splitOn slash).all (!isUnroutable ·) = true := by
    rw [all_eq_true]
    intro seg hseg
    obtain ⟨hnot, heq⟩ := hcut seg hseg
    simp [isUnroutable, heq, hnot, hdots seg hseg]
  simp only [canonicalHTTPOperation, decodeOperation_escape, hstrip, hall, Bool.and_self]

theorem splitStars_ne_nil (l : Text) : splitStars l ≠ [] := by
  induction l using splitStars.induct with
  | case1 a b c rest h => simp [splitStars, h]
  | case2 a b c rest h ih =>
    rw [splitStars, if_neg h]
    simpa using ih
  | case3 rest h =>
    match rest with
    | [] | [_] | [_, _] => simp [splitStars]
    | a :: b :: c :: rest => exact absurd rfl (h a b c rest)

theorem decodeOperation_cons_slash (op : Text) : ∃ d, (decodeOperation (slash :: op)).1 = slash :: d := by
  simp only [decodeOperation, replaceStars_cons (show slash ≠ percent by decide),
    splitStars_cons (show slash ≠ percent by decide)]
  split
  · exact ⟨op, rfl⟩
  · next parts hparts =>
    split
    · cases hsplit : splitStars (replaceStars op) with
      | nil => exact absurd hsplit (splitStars_ne_nil _)
      | cons first rest =>
        rw [hsplit, modifyHead_cons, mapM_cons, pathUnescape_cons (by decide)] at hparts
        cases hfirst : pathUnescape first with
        | none => simp [hfirst] at hparts
        | some first' =>
          simp only [hfirst, Option.map_some, Option.bind_eq_bind, Option.bind_some, Option.bind_eq_some_iff] at hparts
          obtain ⟨rest', -, heq⟩ := hparts
          cases heq
          exact ⟨_, intercalate_cons_cons_left⟩
    · exact ⟨op, rfl⟩

theorem withSlash_eq (op : Text) : ∃ rest, withSlash op = slash :: rest := by
  unfold withSlash
  split
  · next h =>
    obtain ⟨rest, hrest⟩ := isPrefixOf_iff_prefix.1 h
    exact ⟨rest, hrest.symm⟩
  · exact ⟨op, rfl⟩

theorem stripParameters_cons_slash (d : Text) : ∃ rest, stripParameters (slash :: d) = slash :: rest := by
  rw [stripParameters, splitOn_cons_eq_if_modifyHead, if_pos (by simp), map_cons,
    intercalate_cons_of_ne_nil (by simp)]
  exact ⟨_, rfl⟩

/-- What a routable operation is without its parameters is itself a routable operation. -/
theorem exists_plain_operation {op : Text} (h : (canonicalHTTPOperation lower (withSlash op)).ok = true) :
    ∃ op', canonicalHTTPOperation lower (withSlash op') =
      ⟨(canonicalHTTPOperation lower (withSlash op)).stripped, (canonicalHTTPOperation lower (withSlash op)).stripped, true⟩ := by
  obtain ⟨rest, hrest⟩ := withSlash_eq op
  obtain ⟨d, hd⟩ := decodeOperation_cons_slash rest
  obtain ⟨text, htext⟩ := stripParameters_cons_slash d
  rw [hrest] at h ⊢
  simp only [canonicalHTTPOperation, hd, Bool.and_eq_true] at h ⊢
  have hsegs : (stripParameters (slash :: d)).splitOn slash = ((slash :: d).splitOn slash).map cut := by
    refine splitOn_intercalate slash ?_ (by simp)
    intro seg hseg
    obtain ⟨seg', hseg', rfl⟩ := mem_map.1 hseg
    exact fun hmem => (mem_of_mem_splitOn hseg').1 ((List.takeWhile_prefix _).subset hmem)
  refine ⟨escape (stripParameters (slash :: d)), ?_⟩
  have hslash : withSlash (escape (stripParameters (slash :: d))) = escape (stripParameters (slash :: d)) := by
    rw [htext]
    rfl
  rw [hslash]
  refine canonicalHTTPOperation_escape ?_ ?_
  · intro hmem
    obtain hslash | ⟨seg, hseg, hmem⟩ := mem_intercalate_slash hmem
    · revert hslash
      decide
    · obtain ⟨seg', -, rfl⟩ := mem_map.1 hseg
      exact semicolon_notMem_cut seg' hmem
  · rw [hsegs]
    intro seg hseg
    obtain ⟨seg', hseg', rfl⟩ := mem_map.1 hseg
    have hroutable := all_eq_true.1 h.2 seg' hseg'
    simp only [isUnroutable, Bool.not_eq_true', Bool.or_eq_false_iff, decide_eq_false_iff_not] at hroutable
    exact ⟨hroutable.1.1, hroutable.1.2⟩

end Dapr.Acl
