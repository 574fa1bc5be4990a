import Dapr.Lib.Encodings
import Dapr.Lib.Runs
import Mathlib.Data.List.Induction
/-!
# The trie of operations

The operations of a policy are kept in a trie, by the segments of their paths. A segment of the trie
may have wildcards. A search goes down from the root and takes at each node the first sub node that
accepts the segment; it never goes back. A node with data ends the search, also in the middle of the
path, unless it is the wildcard of a single segment.

The trie is a way to store a list of rules: what a search finds is also said over the list, in the
order in which the rules were put.

Strings are lists of bytes, as they are compared byte by byte.
-/

namespace Dapr.Acl

open List

abbrev Text := Lib.Bytes

/-- The segments of an operation, each with the slash before it. -/
abbrev Path := List Text

def slash : UInt8 := 47

def star : UInt8 := 42

def singleStageWildcard : Text := [slash, star]

def multiStageWildcard : Text := [slash, star, star]

/-! ## Wildcards within a segment -/

/-- The row of the table for the empty target. -/
def firstRow (pattern : Text) : List Bool := true :: go true pattern
where
  go (left : Bool) : Text → List Bool
    | [] => []
    | p :: ps => (left && p = star) :: go (left && p = star) ps

/-- The row of the table for one more byte of the target. -/
def nextRow (pattern : Text) (row : List Bool) (t : UInt8) : List Bool := false :: go false pattern row
where
  go (left : Bool) : Text → List Bool → List Bool
    | p :: ps, diagonal :: above :: row =>
      let m := if p = star then left || above else t = p && diagonal
      m :: go m ps (above :: row)
    | _, _ => []

def isMatch (target pattern : Text) : Bool := (target.foldl (nextRow pattern) (firstRow pattern)).getLast?.getD false

/-! ## Nodes -/

inductive Node (α : Type) where
  | mk (char : Text) (data : Option α) (subNodes : List (Node α))

namespace Node

variable {α : Type}

def char : Node α → Text
  | mk char _ _ => char

def data : Node α → Option α
  | mk _ data _ => data

def subNodes : Node α → List (Node α)
  | mk _ _ subNodes => subNodes

def new (char : Text) : Node α := mk char none []

/-- The sub node of the segment is changed; it is added if there is none. -/
def update (char : Text) (f : Node α → Node α) : List (Node α) → List (Node α)
  | [] => [f (new char)]
  | node :: nodes => if node.char = char then f node :: nodes else node :: update char f nodes

/-- Data that a node has already is kept. -/
def putOperationAction : Node α → Path → α → Node α
  | mk char data subNodes, [], a => mk char (data.or (some a)) subNodes
  | mk char data subNodes, c :: rest, a => mk char data (update c (putOperationAction · rest a) subNodes)

/-- Whether a sub node is taken for a segment. -/
def accepts (target : Text) (isEnd : Bool) (char : Text) : Bool :=
  if char = target then true
  else if char = singleStageWildcard then isEnd
  else if char = multiStageWildcard then true
  else isMatch target char

def findNodeWithWildcard (target : Text) (nodes : List (Node α)) (isEnd : Bool) : Option (Node α) :=
  nodes.find? fun node => accepts target isEnd node.char

def findSubNode (node : Node α) (target : Text) (isEnd : Bool) : Option (Node α) :=
  findNodeWithWildcard target node.subNodes isEnd

def search (node : Node α) : Path → Option α
  | [] => none
  | c :: rest =>
    match node.findSubNode c rest.isEmpty with
    | none => none
    | some sub =>
      match sub.data with
      | some a =>
        if rest.isEmpty = false ∧ singleStageWildcard.isSuffixOf sub.char = true ∧
            multiStageWildcard.isSuffixOf sub.char = false then
          sub.search rest
        else some a
      | none =>
        if rest.isEmpty then (sub.findSubNode singleStageWildcard rest.isEmpty).bind data else sub.search rest

end Node

/-! ## The rules in the order in which they were put -/

section

variable {α : Type}

def build (char : Text) (rules : List (Path × α)) : Node α :=
  rules.foldl (fun node rule => node.putOperationAction rule.1 rule.2) (.new char)

/-- The first segments, each where it came first. -/
def heads (rules : List (Path × α)) : List Text := (rules.filterMap (·.1.head?)).eraseDups

/-- The rules under a first segment, without it. -/
def below (c : Text) (rules : List (Path × α)) : List (Path × α) :=
  rules.filterMap fun
    | ([], _) => none
    | (c' :: rest, a) => if c' = c then some (rest, a) else none

/-- What is found for a path, said over the rules. -/
def consulted : List (Path × α) → Path → Option α
  | _, [] => none
  | rules, c :: rest =>
    match (heads rules).find? (Node.accepts c rest.isEmpty) with
    | none => none
    | some c' =>
      match (below c' rules).lookup [] with
      | some a =>
        if rest.isEmpty = false ∧ singleStageWildcard.isSuffixOf c' = true ∧
            multiStageWildcard.isSuffixOf c' = false then
          consulted (below c' rules) rest
        else some a
      | none =>
        if rest.isEmpty then
          ((heads (below c' rules)).find? (Node.accepts singleStageWildcard rest.isEmpty)).bind fun c'' =>
            (below c'' (below c' rules)).lookup []
        else consulted (below c' rules) rest

/-! ### The trie stores the rules -/

@[simp] theorem char_putOperationAction (node : Node α) (path : Path) (a : α) :
    (node.putOperationAction path a).char = node.char := by
  cases node
  cases path <;> rfl

theorem char_build (char : Text) (rules : List (Path × α)) : (build char rules).char = char := by
  induction rules using reverseRecOn with
  | nil => rfl
  | append_singleton rules rule ih =>
    rw [build, foldl_append]
    exact (char_putOperationAction _ _ _).trans ih

theorem eraseDups_concat (l : List Text) (a : Text) :
    (l ++ [a]).eraseDups = if a ∈ l.eraseDups then l.eraseDups else l.eraseDups ++ [a] := by
  simp only [eraseDups_append, mem_eraseDups]
  split
  · next h => simp [removeAll, h]
  · next h => simp [removeAll, h, eraseDups_cons]

@[simp] theorem heads_append_nil (rules : List (Path × α)) (a : α) : heads (rules ++ [([], a)]) = heads rules := by
  rw [heads, filterMap_append]
  exact congrArg List.eraseDups (append_nil _)

theorem heads_append_cons (rules : List (Path × α)) (c : Text) (rest : Path) (a : α) :
    heads (rules ++ [(c :: rest, a)]) = if c ∈ heads rules then heads rules else heads rules ++ [c] := by
  rw [heads, filterMap_append]
  exact eraseDups_concat _ c

theorem nodup_heads (rules : List (Path × α)) : (heads rules).Nodup := by
  induction rules using reverseRecOn with
  | nil => exact nodup_nil
  | append_singleton rules rule ih =>
    obtain ⟨path, a⟩ := rule
    cases path with
    | nil => rwa [heads_append_nil]
    | cons c rest =>
      rw [heads_append_cons]
      split
      · exact ih
      · next h => exact Lib.Runs.pairwise_concat ih fun x hx heq => h (heq ▸ hx)

@[simp] theorem below_append_nil (c : Text) (rules : List (Path × α)) (a : α) :
    below c (rules ++ [([], a)]) = below c rules := by
  simp [below]

theorem below_append_cons (c : Text) (rules : List (Path × α)) (c' : Text) (rest : Path) (a : α) :
    below c (rules ++ [(c' :: rest, a)]) = below c rules ++ if c' = c then [(rest, a)] else [] := by
  simp only [below]
  split <;> simp_all

theorem below_eq_nil {c : Text} {rules : List (Path × α)} (h : c ∉ heads rules) : below c rules = [] := by
  refine filterMap_eq_nil_iff.2 ?_
  rintro ⟨path, a⟩ hmem
  cases path with
  | nil => rfl
  | cons c' rest =>
    refine if_neg ?_
    rintro rfl
    exact h (mem_eraseDups.2 (mem_filterMap.2 ⟨_, hmem, rfl⟩))

/-- An update of sub nodes that are listed by their segments. -/
theorem update_map {c : Text} {f : Node α → Node α} {g g' : Text → Node α} (hchar : ∀ c, (g c).char = c)
    (hsame : ∀ c', c' ≠ c → g' c' = g c') (hnew : g' c = f (g c)) {cs : List Text} (hcs : cs.Nodup) :
    Node.update c f (cs.map g) = if c ∈ cs then cs.map g' else cs.map g' ++ [f (.new c)] := by
  induction cs with
  | nil => rfl
  | cons c' cs ih =>
    obtain ⟨hnot, hcs⟩ := nodup_cons.1 hcs
    by_cases heq : c' = c
    · obtain rfl := heq
      have hrest : cs.map g' = cs.map g := map_congr_left fun x hx => hsame x fun h => hnot (h ▸ hx)
      simp [Node.update, hchar, hnew, hrest]
    · rw [map_cons, Node.update, hchar, if_neg heq, ih hcs, hsame c' heq |>.symm]
      by_cases hmem : c ∈ cs <;> simp [hmem, Ne.symm heq]

/-- A trie has the first data that was put for its own path, and a sub node for each first segment. -/
theorem build_eq (char : Text) (rules : List (Path × α)) :
    build char rules = .mk char (rules.lookup []) ((heads rules).map fun c => build c (below c rules)) := by
  induction rules using reverseRecOn with
  | nil => rfl
  | append_singleton rules rule ih =>
    obtain ⟨path, a⟩ := rule
    have hput : build char (rules ++ [(path, a)]) = (build char rules).putOperationAction path a := by
      rw [build, foldl_append]
      rfl
    rw [hput, ih, lookup_append]
    cases path with
    | nil => simp [Node.putOperationAction]
    | cons c rest =>
      simp only [Node.putOperationAction]
      -- the rules under `c` grow by one, those under another segment stay
      have hsame : ∀ c', c' ≠ c → build c' (below c' (rules ++ [(c :: rest, a)])) = build c' (below c' rules) := by
        intro c' hne
        rw [below_append_cons, if_neg (Ne.symm hne), append_nil]
      have hnew : build c (below c (rules ++ [(c :: rest, a)])) =
          (build c (below c rules)).putOperationAction rest a := by
        rw [below_append_cons, if_pos rfl, build, foldl_append]
        rfl
      rw [update_map (fun c => char_build c _) hsame hnew (nodup_heads rules), heads_append_cons]
      have hdata : List.lookup [] [(c :: rest, a)] = none := rfl
      rw [hdata, Option.or_none]
      split
      · rfl
      · next h =>
        rw [map_append, map_singleton, hnew, below_eq_nil h]
        rfl

theorem findSubNode_build (char target : Text) (isEnd : Bool) (rules : List (Path × α)) :
    (build char rules).findSubNode target isEnd =
      ((heads rules).find? (Node.accepts target isEnd)).map fun c => build c (below c rules) := by
  have haccepts : ((fun node : Node α => Node.accepts target isEnd node.char) ∘ fun c => build c (below c rules)) =
      Node.accepts target isEnd := by
    funext c
    exact congrArg (Node.accepts target isEnd) (char_build c _)
  rw [build_eq, Node.findSubNode, Node.findNodeWithWildcard, Node.subNodes, find?_map, haccepts]

theorem data_build (char : Text) (rules : List (Path × α)) : (build char rules).data = rules.lookup [] := by
  rw [build_eq]
  rfl

/-- A search in the trie finds what is consulted for the path. -/
theorem search_build (char : Text) (rules : List (Path × α)) (path : Path) :
    (build char rules).search path = consulted rules path := by
  induction path generalizing char rules with
  | nil => rfl
  | cons c rest ih =>
    simp only [Node.search, consulted, findSubNode_build]
    cases (heads rules).find? (Node.accepts c rest.isEmpty) with
    | none => rfl
    | some c' =>
      simp only [Option.map_some, data_build, char_build, ih]
      split
      · rfl
      · split
        · rw [findSubNode_build]
          cases (heads (below c' rules)).find? (Node.accepts singleStageWildcard rest.isEmpty) with
          | none => rfl
          | some c'' => exact data_build c'' _
        · rfl

/-! ### Rules in the way -/

/-- A rule that ends at the segment does not end a search that has segments left. -/
def isPassed (c : Text) : Bool := singleStageWildcard.isSuffixOf c && !multiStageWildcard.isSuffixOf c

/-- On the way to the path no segment that was put earlier accepts one of its segments, and no rule ends before it. -/
def Unshadowed : List (Path × α) → Path → Prop
  | _, [] => True
  | rules, c :: rest =>
    (heads rules).find? (Node.accepts c rest.isEmpty) = some c ∧
      (rest ≠ [] → isPassed c = false → (below c rules).lookup [] = none) ∧ Unshadowed (below c rules) rest

/-- What the search for a path finds in place of the path's own rule. -/
inductive Shadowed : List (Path × α) → Path → Option α → Prop where
  /-- A segment that was put earlier accepts the path's, and the search goes on under it. -/
  | sibling {rules : List (Path × α)} {c c' : Text} {rest : Path} :
    (heads rules).find? (Node.accepts c rest.isEmpty) = some c' → c' ≠ c →
    Shadowed rules (c :: rest) (consulted rules (c :: rest))
  /-- A rule ends before the path does. -/
  | ended {rules : List (Path × α)} {c : Text} {rest : Path} {a : α} :
    (heads rules).find? (Node.accepts c rest.isEmpty) = some c → rest ≠ [] → isPassed c = false →
    (below c rules).lookup [] = some a → Shadowed rules (c :: rest) (some a)
  | under {rules : List (Path × α)} {c : Text} {rest : Path} {found : Option α} :
    (heads rules).find? (Node.accepts c rest.isEmpty) = some c → rest ≠ [] →
    (isPassed c = false → (below c rules).lookup [] = none) → Shadowed (below c rules) rest found →
    Shadowed rules (c :: rest) found

theorem lookup_below (c : Text) (rest : Path) (rules : List (Path × α)) :
    (below c rules).lookup rest = rules.lookup (c :: rest) := by
  induction rules with
  | nil => rfl
  | cons rule rules ih =>
    obtain ⟨path, a⟩ := rule
    cases path with
    | nil => exact ih
    | cons c' rest' =>
      by_cases hc : c' = c
      · subst hc
        simp only [below, filterMap_cons, if_true, lookup_cons] at ih ⊢
        rw [ih]
        simp
      · have hne : (c :: rest == c' :: rest') = false := by simp [Ne.symm hc]
        rw [lookup_cons, hne]
        simp only [below, filterMap_cons, if_neg hc] at ih ⊢
        exact ih

/-- The search goes on under the path's own segment. -/
theorem consulted_cons {rules : List (Path × α)} {c : Text} {rest : Path}
    (hfind : (heads rules).find? (Node.accepts c rest.isEmpty) = some c) (hrest : rest ≠ [])
    (hends : isPassed c = false → (below c rules).lookup [] = none) :
    consulted rules (c :: rest) = consulted (below c rules) rest := by
  have hempty : rest.isEmpty = false := by simpa using hrest
  simp only [consulted, hfind]
  split
  · next a ha =>
    have hpassed : isPassed c = true := Bool.of_not_eq_false fun h => by simp [hends h] at ha
    simp only [isPassed, Bool.and_eq_true, Bool.not_eq_true'] at hpassed
    rw [if_pos ⟨hempty, hpassed⟩]
  · rw [hempty]
    rfl

/-- A rule that nothing shadows is consulted for its path. -/
theorem consulted_of_unshadowed {rules : List (Path × α)} {path : Path} {a : α} (h : Unshadowed rules path)
    (hne : path ≠ []) (ha : rules.lookup path = some a) : consulted rules path = some a := by
  induction path generalizing rules with
  | nil => exact absurd rfl hne
  | cons c rest ih =>
    obtain ⟨hfind, hends, hrest⟩ := h
    rw [← lookup_below] at ha
    cases rest with
    | nil =>
      simp only [consulted, hfind]
      simp [ha]
    | cons c' rest =>
      rw [consulted_cons hfind (by simp) (hends (by simp))]
      exact ih hrest (by simp) ha

theorem consulted_of_shadowed {rules : List (Path × α)} {path : Path} {found : Option α} (h : Shadowed rules path found) :
    consulted rules path = found := by
  induction h with
  | sibling _ _ => rfl
  | @ended rules c rest a hfind hrest hpassed ha =>
    have hnot : ¬ (rest.isEmpty = false ∧ singleStageWildcard.isSuffixOf c = true ∧
        multiStageWildcard.isSuffixOf c = false) := by
      rintro ⟨-, hsingle, hmulti⟩
      simp [isPassed, hsingle, hmulti] at hpassed
    simp only [consulted, hfind, ha]
    rw [if_neg hnot]
  | under hfind hrest hends _ ih => rw [consulted_cons hfind hrest hends, ih]

/-- The search for the path of a rule leaves it if something shadows the rule. -/
theorem shadowed_of_not_unshadowed {rules : List (Path × α)} {path : Path} {a : α} (ha : rules.lookup path = some a)
    (h : ¬ Unshadowed rules path) : Shadowed rules path (consulted rules path) := by
  induction path generalizing rules with
  | nil => exact absurd trivial h
  | cons c rest ih =>
    rw [← lookup_below] at ha
    have hmem : c ∈ heads rules := by
      by_contra hnot
      rw [below_eq_nil hnot] at ha
      cases ha
    obtain ⟨c', hfind⟩ := Option.isSome_iff_exists.1
      (find?_isSome.2 ⟨c, hmem, (by simp [Node.accepts] : Node.accepts c rest.isEmpty c = true)⟩)
    by_cases hc : c' = c
    · subst hc
      by_cases hrest : rest = []
      · subst hrest
        exact absurd ⟨hfind, fun hne => absurd rfl hne, trivial⟩ h
      by_cases hends : isPassed c' = false → (below c' rules).lookup [] = none
      · rw [consulted_cons hfind hrest hends]
        exact .under hfind hrest hends (ih ha fun hclear => h ⟨hfind, fun _ => hends, hclear⟩)
      · rw [Classical.not_imp] at hends
        obtain ⟨hpassed, hsome⟩ := hends
        obtain ⟨b, hb⟩ := Option.ne_none_iff_exists'.1 hsome
        have hended := Shadowed.ended hfind hrest hpassed hb
        rwa [consulted_of_shadowed hended]
    · exact .sibling hfind hc

end

end Dapr.Acl
