import Dapr.Acl.Listed
/-!
# Deny rules

What a policy says about a path and a verb, said over its rules in the order in which they are listed.
A deny rule wins over the other rules of its own operation, but the search for a path may end at the
rule of another operation, and then the deny rule is never asked.
-/

namespace Dapr.Acl

open List

variable {lower : Text → Text} {isHTTP : Bool} (rules : List AppOperation)

/-! ## The rules of a policy -/

section

variable (lower : Text → Text) (isHTTP : Bool)

/-- The operations of the rules, each where it came first. -/
def operationNames (rules : List AppOperation) : List Text := (rules.map (·.name lower isHTTP)).eraseDups

def operationPaths (rules : List AppOperation) : List (Path × Text) :=
  (operationNames lower isHTTP rules).map fun name => (pathOf name, name)

/-- The action of a verb, from the rules of the operation that name the verb. -/
def mergedAction (rules : List AppOperation) (name : Text) (verb : String) : Option String :=
  rules.foldl (fun action rule =>
    if rule.name lower isHTTP = name ∧ verb ∈ rule.httpVerb then some (mergeAction (action.getD "") rule.action)
    else action) none

end

theorem mergeAction_idem (current action : String) :
    mergeAction (mergeAction current action) action = mergeAction current action := by
  by_cases h : current ≠ "" ∧ isActionAllowed current = false
  · simp [mergeAction, h]
  · simp [mergeAction, h]

theorem lookup_mergeVerbs (action : String) (verbs : List String) (m : AList fun _ : String => String) (verb : String) :
    (mergeVerbs action verbs m).lookup verb =
      if verb ∈ verbs then some (mergeAction ((m.lookup verb).getD "") action) else m.lookup verb := by
  induction verbs generalizing m with
  | nil => simp [mergeVerbs]
  | cons first verbs ih =>
    rw [mergeVerbs, foldl_cons, ← mergeVerbs, ih]
    by_cases heq : verb = first
    · subst heq
      simp [mergeAction_idem]
    · simp [heq]

/-- The operations of a policy hold its rules. -/
structure Holds (lower : Text → Text) (isHTTP : Bool) (rules : List AppOperation) (ops : Operations) : Prop where
  trie : ops.trie = build [slash] (operationPaths lower isHTTP rules)
  known : ∀ name, (ops.entries.lookup name).isSome ↔ name ∈ operationNames lower isHTTP rules
  verbs : ∀ name verb, (ops.entries.lookup name).bind (·.verbAction.lookup verb) = mergedAction lower isHTTP rules name verb

theorem operationNames_append (rule : AppOperation) :
    operationNames lower isHTTP (rules ++ [rule]) =
      if rule.name lower isHTTP ∈ operationNames lower isHTTP rules then operationNames lower isHTTP rules
      else operationNames lower isHTTP rules ++ [rule.name lower isHTTP] := by
  rw [operationNames, map_append]
  exact eraseDups_concat _ _

theorem mergedAction_append (rule : AppOperation) (name : Text) (verb : String) :
    mergedAction lower isHTTP (rules ++ [rule]) name verb =
      if rule.name lower isHTTP = name ∧ verb ∈ rule.httpVerb then
        some (mergeAction ((mergedAction lower isHTTP rules name verb).getD "") rule.action)
      else mergedAction lower isHTTP rules name verb := by
  rw [mergedAction, foldl_append]
  rfl

theorem trie_put (ops : Operations) (rule : AppOperation) :
    (ops.put lower isHTTP rule).trie =
      if (ops.entries.lookup (rule.name lower isHTTP)).isSome then ops.trie
      else ops.trie.putOperationAction (pathOf (rule.name lower isHTTP)) (rule.name lower isHTTP) := by
  cases hlookup : ops.entries.lookup (rule.name lower isHTTP) <;> simp [Operations.put, hlookup]

variable {name : Text} {rules : List AppOperation} {rule : AppOperation} {verb : Verb} {policy : AppPolicySpec}

theorem lookup_put_ne (ops : Operations) (rule : AppOperation) (h : name ≠ rule.name lower isHTTP) :
    (ops.put lower isHTTP rule).entries.lookup name = ops.entries.lookup name :=
  AList.lookup_insert_ne h

/-- The entry of the rule's operation, with the verbs of the rule merged in. -/
theorem lookup_put (ops : Operations) (rule : AppOperation) :
    ∃ entry, (ops.put lower isHTTP rule).entries.lookup (rule.name lower isHTTP) = some entry ∧
      ∀ verb, entry.verbAction.lookup verb =
        let old := (ops.entries.lookup (rule.name lower isHTTP)).bind (·.verbAction.lookup verb)
        if verb ∈ rule.httpVerb then some (mergeAction (old.getD "") rule.action) else old := by
  refine ⟨_, AList.lookup_insert _, fun verb => ?_⟩
  rw [lookup_mergeVerbs]
  cases ops.entries.lookup (rule.name lower isHTTP) <;> rfl

theorem holds_put {ops : Operations} (h : Holds lower isHTTP rules ops) (rule : AppOperation) :
    Holds lower isHTTP (rules ++ [rule]) (ops.put lower isHTTP rule) := by
  obtain ⟨entry, hentry, hverbs⟩ := @lookup_put lower isHTTP ops rule
  refine ⟨?_, fun name => ?_, fun name verb => ?_⟩
  · rw [trie_put, operationPaths, operationNames_append]
    by_cases hmem : rule.name lower isHTTP ∈ operationNames lower isHTTP rules
    · rw [if_pos ((h.known _).2 hmem), if_pos hmem]
      exact h.trie
    · rw [if_neg (mt (h.known _).1 hmem), if_neg hmem, h.trie, map_append, build, build, foldl_append]
      rfl
  · rw [operationNames_append]
    by_cases hname : name = rule.name lower isHTTP
    · subst hname
      split <;> simp [*]
    · rw [lookup_put_ne ops rule hname, h.known]
      split <;> simp [hname]
  · rw [mergedAction_append]
    by_cases hname : name = rule.name lower isHTTP
    · subst hname
      rw [hentry, Option.bind_some, hverbs, h.verbs]
      simp
    · rw [lookup_put_ne ops rule hname, h.verbs, if_neg]
      exact fun hrule => hname hrule.1.symm

theorem holds_parseOperations :
    Holds lower isHTTP rules (parseOperations lower isHTTP rules) := by
  induction rules using reverseRecOn with
  | nil => exact ⟨rfl, fun _ => by simp [parseOperations, operationNames], fun _ _ => rfl⟩
  | append_singleton rules rule ih =>
    rw [parseOperations, foldl_append]
    exact holds_put ih rule

/-! ## Deny wins over the rules of its operation -/

/-- An action that denies: neither empty nor an allowing one. -/
def Denies (action : String) : Prop := action ≠ "" ∧ isActionAllowed action = false

theorem denies_of_equalFold {action : String} (h : equalFold action denyAccess = true) : Denies action := by
  have hfold : foldCase action = foldCase denyAccess := by simpa [equalFold] using h
  refine ⟨?_, ?_⟩
  · rintro rfl
    revert hfold
    decide
  · have hne : foldCase denyAccess ≠ foldCase allowAccess := by decide
    simpa [isActionAllowed, equalFold, hfold] using hne

theorem denies_mergeAction {current next : String} (h : Denies current ∨ Denies next) : Denies (mergeAction current next) := by
  by_cases hcurrent : Denies current
  · rwa [show mergeAction current next = current from if_pos hcurrent]
  · rw [show mergeAction current next = next from if_neg hcurrent]
    exact h.resolve_left hcurrent

/-- Whatever is listed before and after a deny rule, its operation is denied for its verbs. -/
theorem mergedAction_of_deny {verb : String} (hrule : rule ∈ rules) (hdeny : Denies rule.action)
    (hverb : verb ∈ rule.httpVerb) :
    ∃ action, mergedAction lower isHTTP rules (rule.name lower isHTTP) verb = some action ∧ Denies action := by
  induction rules using reverseRecOn with
  | nil => cases hrule
  | append_singleton rules last ih =>
    rw [mergedAction_append]
    rcases mem_append.1 hrule with hmem | hmem
    · obtain ⟨action, hmerged, hdenies⟩ := ih hmem
      rw [hmerged]
      split
      · exact ⟨_, rfl, denies_mergeAction (.inl hdenies)⟩
      · exact ⟨_, rfl, hdenies⟩
    · obtain rfl := mem_singleton.1 hmem
      rw [if_pos ⟨rfl, hverb⟩]
      exact ⟨_, rfl, denies_mergeAction (.inr hdeny)⟩

/-! ## The action for a path -/

/-- What a policy answers for a verb once an operation is found. -/
def AppPolicySpec.actionOf (lower : Text → Text) (policy : AppPolicySpec) (globalAction : String) (verb : Verb)
    (found : Option Text) : String :=
  let action := if policy.defaultAction ≠ "" then policy.defaultAction else globalAction
  match found with
  | none => action
  | some found =>
    ((mergedAction lower true policy.appOperationActions found verb.string).or
      (mergedAction lower true policy.appOperationActions found "*")).getD action

/-- What a policy answers for a canonical path and a verb. -/
def AppPolicySpec.actionAt (lower : Text → Text) (policy : AppPolicySpec) (globalAction : String) (name : Text)
    (verb : Verb) : String :=
  policy.actionOf lower globalAction verb
    (consulted (operationPaths lower true policy.appOperationActions) (pathOf name))

theorem actionFor_verb (entry : OperationAction) (hverb : verb ≠ .none) (defaultAction action : String) :
    entry.actionFor verb true defaultAction action =
      ((entry.verbAction.lookup verb.string).or (entry.verbAction.lookup "*")).getD action := by
  rw [OperationAction.actionFor, if_pos hverb]
  cases entry.verbAction.lookup verb.string <;> rfl

theorem operationAction_parse (hverb : verb ≠ .none) (globalAction : String) (name : Text) :
    operationAction (policy.parse lower true) name verb true ((policy.parse lower true).default globalAction).1 =
      policy.actionAt lower globalAction name verb := by
  have h := @holds_parseOperations lower true policy.appOperationActions
  have haction : ((policy.parse lower true).default globalAction).1 =
      if policy.defaultAction ≠ "" then policy.defaultAction else globalAction := by
    exact apply_ite Prod.fst _ _ _
  have hsearch : (policy.parse lower true).operations.trie.search (pathOf name) =
      consulted (operationPaths lower true policy.appOperationActions) (pathOf name) := by
    rw [← search_build [slash], ← h.trie]
    rfl
  rw [operationAction, hsearch, haction, AppPolicySpec.actionAt]
  cases consulted (operationPaths lower true policy.appOperationActions) (pathOf name) with
  | none => rfl
  | some found =>
    have hentries : (policy.parse lower true).operations.entries.lookup found =
        (parseOperations lower true policy.appOperationActions).entries.lookup found := rfl
    simp only [AppPolicySpec.actionOf, Option.bind_some, hentries, ← h.verbs]
    cases (parseOperations lower true policy.appOperationActions).entries.lookup found with
    | none => rfl
    | some entry => exact actionFor_verb entry hverb _ _

theorem decide_parse (hverb : verb ≠ .none) (globalAction : String) (op : Text) :
    ((policy.parse lower true).decide lower globalAction op verb true).1 =
      ((canonicalHTTPOperation lower (withSlash op)).ok &&
        (isActionAllowed (policy.actionAt lower globalAction (canonicalHTTPOperation lower (withSlash op)).stripped verb) &&
          isActionAllowed (policy.actionAt lower globalAction (canonicalHTTPOperation lower (withSlash op)).decoded verb))) := by
  simp only [PolicySpec.decide, operationAction_parse hverb]
  cases (canonicalHTTPOperation lower (withSlash op)).ok <;> simp

/-! ## A rule is found by its path -/

theorem pathOf_cons_slash (text : Text) : pathOf (slash :: text) = (text.splitOn slash).map (slash :: ·) := by
  rfl

theorem pathOf_ne_nil (text : Text) : pathOf (slash :: text) ≠ [] := by
  rw [pathOf_cons_slash]
  simp

theorem pathOf_injective {s t : Text} (h : pathOf (slash :: s) = pathOf (slash :: t)) : s = t := by
  rw [pathOf_cons_slash, pathOf_cons_slash] at h
  have hsplit := map_injective_iff.2 cons_injective h
  simpa only [intercalate_splitOn] using congrArg [slash].intercalate hsplit

theorem lookup_pathOf {names : List Text} (hmem : name ∈ names)
    (hslash : ∀ name ∈ names, ∃ text, name = slash :: text) :
    (names.map fun name => (pathOf name, name)).lookup (pathOf name) = some name := by
  induction names with
  | nil => cases hmem
  | cons first names ih =>
    rw [map_cons, lookup_cons]
    by_cases heq : pathOf name = pathOf first
    · obtain ⟨text, htext⟩ := hslash first mem_cons_self
      obtain ⟨text', htext'⟩ := hslash name hmem
      rw [htext, htext'] at heq ⊢
      obtain rfl := pathOf_injective heq
      simp
    · have hne : (pathOf name == pathOf first) = false := by simpa using heq
      rw [hne]
      refine ih ((mem_cons.1 hmem).resolve_left ?_) fun name hname => hslash name (mem_cons_of_mem _ hname)
      rintro rfl
      exact heq rfl

variable (hlower : ∀ text, lower (slash :: text) = slash :: lower text)
include hlower

theorem name_eq_cons_slash (rule : AppOperation) : ∃ text, rule.name lower true = slash :: text := by
  obtain ⟨rest, hrest⟩ := withSlash_eq rule.operation
  obtain ⟨d, hd⟩ := decodeOperation_cons_slash rest
  obtain ⟨text, htext⟩ := stripParameters_cons_slash d
  refine ⟨lower text, ?_⟩
  simp only [AppOperation.name, if_true, canonicalHTTPOperation, hrest, hd, htext, hlower]

theorem lookup_operationPaths (hrule : rule ∈ rules) :
    (operationPaths lower true rules).lookup (pathOf (rule.name lower true)) = some (rule.name lower true) := by
  have hmem : rule.name lower true ∈ operationNames lower true rules :=
    mem_eraseDups.2 (mem_map_of_mem hrule)
  have hslash : ∀ name ∈ operationNames lower true rules, ∃ text, name = slash :: text := by
    intro name hname
    obtain ⟨rule', -, rfl⟩ := mem_map.1 (mem_eraseDups.1 hname)
    exact name_eq_cons_slash hlower rule'
  exact lookup_pathOf hmem hslash

/-- A deny rule that nothing shadows is what its policy answers for its path and its verbs. -/
theorem actionAt_of_unshadowed (hrule : rule ∈ policy.appOperationActions) (hdeny : Denies rule.action)
    (hverb : verb.string ∈ rule.httpVerb)
    (hclear : Unshadowed (operationPaths lower true policy.appOperationActions) (pathOf (rule.name lower true)))
    (globalAction : String) :
    isActionAllowed (policy.actionAt lower globalAction (rule.name lower true) verb) = false := by
  obtain ⟨text, htext⟩ := name_eq_cons_slash hlower rule
  have hne : pathOf (rule.name lower true) ≠ [] := by
    rw [htext]
    exact pathOf_ne_nil text
  have hfound := consulted_of_unshadowed hclear hne (lookup_operationPaths hlower hrule)
  obtain ⟨action, hmerged, -, hdenied⟩ := @mergedAction_of_deny lower true _ _ _ hrule hdeny hverb
  simpa [AppPolicySpec.actionAt, AppPolicySpec.actionOf, hfound, hmerged] using hdenied

omit hlower

/-! ## When the deny rule is asked -/

/-- Some invocation has the canonical path, and an app may route it. -/
def Routable (lower : Text → Text) (name : Text) : Prop :=
  ∃ op, (canonicalHTTPOperation lower (withSlash op)).ok = true ∧ (canonicalHTTPOperation lower (withSlash op)).stripped = name

/-- What is in force for the caller lets an invocation of the path pass: the global default if no policy is, or the
answer of the policy for the path. -/
def LetsPass (lower : Text → Text) (spec : AccessControlSpec) (caller : Parsed) (name : Text) (verb : Verb) : Prop :=
  match inForce spec.policies caller with
  | none => isActionAllowed spec.globalAction = true
  | some policy => Routable lower name ∧ isActionAllowed (policy.actionAt lower spec.globalAction name verb) = true

/-- The caller is refused every operation that is stored under the name. -/
def Denied (lower : Text → Text) (acl : AccessControlList) (caller : Parsed) (name : Text) (verb : Verb) : Prop :=
  ∀ op, (canonicalHTTPOperation lower (withSlash op)).stripped = name →
    (isOperationAllowedByAccessControlPolicy lower (some caller) op verb true (some acl)).1 = false

theorem denied_iff_not_letsPass {spec : AccessControlSpec} {acl : AccessControlList} {caller : Parsed}
    (h : parseAccessControlSpec lower true (some spec) = .ok (some acl)) (hverb : verb ≠ .none) (rule : AppOperation) :
    Denied lower acl caller (rule.name lower true) verb ↔ ¬ LetsPass lower spec caller (rule.name lower true) verb := by
  have hdefault := (lookup_of_parse h).1
  have hfound := policyFor_of_parse h caller
  unfold Denied LetsPass isOperationAllowedByAccessControlPolicy
  cases hforce : inForce spec.policies caller with
  | none =>
    simp only [hforce] at hfound
    simp only [Option.bind_some, hfound, hdefault, Bool.not_eq_true]
    exact ⟨fun hall => hall rule.operation rfl, fun hdenied _ _ => hdenied⟩
  | some policy =>
    simp only [hforce, Option.map_some] at hfound
    simp only [Option.bind_some, hfound, hdefault, decide_parse hverb]
    constructor
    · rintro hall ⟨⟨op, hok, hname⟩, hallowed⟩
      -- the operation without parameters has the same path with and without them
      obtain ⟨op', hop'⟩ := exists_plain_operation hok
      have hdenied := hall op' (by rw [hop', hname])
      simp [hop', hname, hallowed] at hdenied
    · intro hnot op hname
      by_cases hok : (canonicalHTTPOperation lower (withSlash op)).ok = true
      · have hdenied : ¬ isActionAllowed (policy.actionAt lower spec.globalAction (rule.name lower true) verb) = true :=
          fun hallowed => hnot ⟨⟨op, hok, hname⟩, hallowed⟩
        simp [hname, hdenied]
      · simp [hok]

/-- The specification has a policy for the caller with a rule that denies the verb. -/
structure DenyRule (spec : AccessControlSpec) (caller : Parsed) (policy : AppPolicySpec) (rule : AppOperation)
    (verb : Verb) : Prop where
  listed : policy ∈ spec.policies
  isFor : policy.isFor caller = true
  mem : rule ∈ policy.appOperationActions
  deny : equalFold rule.action denyAccess = true
  names : verb.string ∈ rule.httpVerb

/-- How an invocation of the path gets past a deny rule of the policy. -/
inductive GetsPast (lower : Text → Text) (spec : AccessControlSpec) (caller : Parsed) (policy : AppPolicySpec)
    (name : Text) (verb : Verb) : Prop where
  /-- The last policy under the caller's key is not for the caller, and the global default allows. -/
  | unlisted {last : AppPolicySpec} : lastUnder spec.policies caller.key = some last → last.isFor caller = false →
    isActionAllowed spec.globalAction = true → GetsPast lower spec caller policy name verb
  /-- The last policy for the caller is another one, and it allows the path. -/
  | replaced {last : AppPolicySpec} : inForce spec.policies caller = some last → last ≠ policy → Routable lower name →
    isActionAllowed (last.actionAt lower spec.globalAction name verb) = true →
    GetsPast lower spec caller policy name verb
  /-- The search leaves the path, and the rules of the operation that it finds, or the default if it finds none,
  allow the verb. -/
  | shadowed {found : Option Text} : inForce spec.policies caller = some policy →
    Shadowed (operationPaths lower true policy.appOperationActions) (pathOf name) found → Routable lower name →
    isActionAllowed (policy.actionOf lower spec.globalAction verb found) = true →
    GetsPast lower spec caller policy name verb

section

variable {spec : AccessControlSpec} {caller : Parsed} {policy : AppPolicySpec} {rule : AppOperation} {verb : Verb}

theorem letsPass_of_getsPast {name : Text} (h : GetsPast lower spec caller policy name verb) :
    LetsPass lower spec caller name verb := by
  unfold LetsPass
  cases h with
  | unlisted hlast hother hglobal =>
    have hforce : inForce spec.policies caller = none := by simp [inForce, hlast, hother]
    rwa [hforce]
  | replaced hforce _ hroutable hallowed =>
    rw [hforce]
    exact ⟨hroutable, hallowed⟩
  | shadowed hforce hshadowed hroutable hallowed =>
    rw [hforce]
    refine ⟨hroutable, ?_⟩
    rwa [AppPolicySpec.actionAt, consulted_of_shadowed hshadowed]

theorem getsPast_of_letsPass (hlower : ∀ text, lower (slash :: text) = slash :: lower text)
    (hrule : DenyRule spec caller policy rule verb) (h : LetsPass lower spec caller (rule.name lower true) verb) :
    GetsPast lower spec caller policy (rule.name lower true) verb := by
  unfold LetsPass at h
  cases hforce : inForce spec.policies caller with
  | none =>
    rw [hforce] at h
    obtain ⟨last, hlast⟩ := lastUnder_of_isFor hrule.listed hrule.isFor
    refine .unlisted hlast ?_ h
    simpa [inForce, hlast] using hforce
  | some last =>
    rw [hforce] at h
    obtain ⟨hroutable, hallowed⟩ := h
    by_cases hlast : last = policy
    · subst hlast
      refine .shadowed hforce (shadowed_of_not_unshadowed (lookup_operationPaths hlower hrule.mem) ?_) hroutable hallowed
      intro hclear
      have hdenied := actionAt_of_unshadowed hlower hrule.mem (denies_of_equalFold hrule.deny) hrule.names hclear
        spec.globalAction
      rw [hallowed] at hdenied
      cases hdenied
    · exact .replaced hforce hlast hroutable hallowed

end

/-- A deny rule denies every invocation of its path if its policy is in force for the caller and no rule on the way to
its path shadows it. Otherwise the invocation passes exactly if what is asked in the rule's place allows it. -/
theorem exact_deny_iff (hlower : ∀ text, lower (slash :: text) = slash :: lower text) {spec : AccessControlSpec}
    {acl : AccessControlList} {caller : Parsed} {policy : AppPolicySpec} {rule : AppOperation} {verb : Verb}
    (h : parseAccessControlSpec lower true (some spec) = .ok (some acl)) (hrule : DenyRule spec caller policy rule verb)
    (hverb : verb ≠ .none) :
    (inForce spec.policies caller = some policy →
      Unshadowed (operationPaths lower true policy.appOperationActions) (pathOf (rule.name lower true)) →
      Denied lower acl caller (rule.name lower true) verb) ∧
    (Denied lower acl caller (rule.name lower true) verb ↔
      ¬ GetsPast lower spec caller policy (rule.name lower true) verb) := by
  rw [denied_iff_not_letsPass h hverb]
  refine ⟨fun hforce hclear => ?_, not_congr ⟨getsPast_of_letsPass hlower hrule, letsPass_of_getsPast⟩⟩
  have hdenied := actionAt_of_unshadowed hlower hrule.mem (denies_of_equalFold hrule.deny) hrule.names hclear
    spec.globalAction
  simp [LetsPass, hforce, hdenied]

def ascii (s : String) : Text := s.toList.map fun c => .ofNat c.toNat

/-- The shop may read the orders, but not the secret one. -/
def openOrders : AppOperation := ⟨ascii "/orders/*", ["GET"], "allow"⟩

def secretOrder : AppOperation := ⟨ascii "/orders/secret", ["GET"], "deny"⟩

def orders (rules : List AppOperation) : AccessControlSpec where
  defaultAction := "deny"
  trustDomain := "public"
  appPolicies := some [⟨"shop", "deny", "public", "default", rules⟩]

theorem secret_is_denied_when_listed_first :
    ∃ acl, parseAccessControlSpec id true (some (orders [secretOrder, openOrders])) = .ok (some acl) ∧
      Denied id acl ⟨"public", "default", "shop"⟩ (secretOrder.name id true) .get := by
  have hrule : DenyRule (orders [secretOrder, openOrders]) ⟨"public", "default", "shop"⟩
      ⟨"shop", "deny", "public", "default", [secretOrder, openOrders]⟩ secretOrder .get := by
    constructor <;> decide
  have hclear : Unshadowed (operationPaths id true [secretOrder, openOrders]) (pathOf (secretOrder.name id true)) :=
    ⟨by decide, by decide, by decide, by decide, trivial⟩
  have hlower : ∀ text, id (slash :: text) = slash :: id text := fun _ => rfl
  exact ⟨_, rfl, (exact_deny_iff hlower rfl hrule (by decide)).1 (by decide) hclear⟩

/-- The star is listed first, and the search ends there. -/
theorem secret_is_read :
    ∃ acl, parseAccessControlSpec id true (some (orders [openOrders, secretOrder])) = .ok (some acl) ∧
      star ∉ secretOrder.operation ∧ equalFold secretOrder.action denyAccess = true ∧ "GET" ∈ secretOrder.httpVerb ∧
      (canonicalHTTPOperation id (withSlash (ascii "/orders/secret"))).stripped = secretOrder.name id true ∧
      isOperationAllowedByAccessControlPolicy id (some ⟨"public", "default", "shop"⟩) (ascii "/orders/secret") .get true
        (some acl) = (true, "app") := by
  exact ⟨_, rfl, by decide, by decide, by decide, by decide, rfl⟩

end Dapr.Acl
