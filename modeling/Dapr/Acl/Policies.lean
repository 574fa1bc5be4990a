import Dapr.Acl.Operations
import Mathlib.Data.List.AList
/-!
# Access control policies

A specification lists policies of calling apps. It is turned into a table under the app id and the
namespace of the caller; the trust domain is compared after the lookup. Within a policy, rules on the
same operation share an entry: deny wins.
-/

namespace Dapr.Acl

/-! ## The specification -/

structure AppOperation where
  operation : Text
  httpVerb : List String
  action : String
  deriving DecidableEq, Repr

/-- A policy as it is configured. -/
structure AppPolicySpec where
  appName : String
  defaultAction : String
  trustDomain : String
  ns : String
  appOperationActions : List AppOperation
  deriving DecidableEq, Repr

/-- No policies, and an empty list of them, are told apart. -/
structure AccessControlSpec where
  defaultAction : String
  trustDomain : String
  appPolicies : Option (List AppPolicySpec)
  deriving DecidableEq, Repr

def AccessControlSpec.policies (spec : AccessControlSpec) : List AppPolicySpec := spec.appPolicies.getD []

/-! ## The table -/

structure OperationAction where
  operationName : Text
  verbAction : AList fun _ : String => String
  operationAction : String

/-- The entries of the operations, and the trie that points to them by their names. -/
structure Operations where
  entries : AList fun _ : Text => OperationAction
  trie : Node Text

/-- A policy as it is parsed. -/
structure PolicySpec where
  appName : String
  defaultAction : String
  trustDomain : String
  ns : String
  operations : Operations

/-- Policies under the keys of their apps. -/
structure AccessControlList where
  policySpec : AList fun _ : String => PolicySpec
  defaultAction : String
  trustDomain : String

def allowAccess : String := "allow"

def denyAccess : String := "deny"

def defaultTrustDomain : String := "public"

def actionPolicyApp : String := "app"

def actionPolicyGlobal : String := "global"

def foldCase (s : String) : List Char := s.toList.map Char.toLower

def equalFold (s t : String) : Bool := foldCase s = foldCase t

def isActionAllowed (action : String) : Bool := equalFold action allowAccess

/-- The action of two rules on the same operation and verb: deny wins. -/
def mergeAction (current next : String) : String :=
  if current ≠ "" ∧ isActionAllowed current = false then current else next

def getKeyForAppID (appID ns : String) : String := appID ++ "||" ++ ns

section

variable (lower : Text → Text) (isHTTP : Bool)

def AppOperation.name (rule : AppOperation) : Text :=
  if isHTTP then (canonicalHTTPOperation lower (withSlash rule.operation)).stripped else withSlash rule.operation

/-- The action of a rule is merged into the verbs that it names. -/
def mergeVerbs (action : String) (verbs : List String) (verbAction : AList fun _ : String => String) :
    AList fun _ : String => String :=
  verbs.foldl (fun m verb => m.insert verb (mergeAction ((m.lookup verb).getD "") action)) verbAction

def Operations.put (ops : Operations) (rule : AppOperation) : Operations :=
  let name := rule.name lower isHTTP
  let (entry, trie) :=
    match ops.entries.lookup name with
    | some entry => (entry, ops.trie)
    | none => (⟨name, ∅, ""⟩, ops.trie.putOperationAction (pathOf name) name)
  { entries := ops.entries.insert name
      { entry with
        verbAction := mergeVerbs rule.action rule.httpVerb entry.verbAction
        operationAction := mergeAction entry.operationAction rule.action }
    trie }

def parseOperations (rules : List AppOperation) : Operations :=
  rules.foldl (Operations.put lower isHTTP) ⟨∅, .new [slash]⟩

def AppPolicySpec.parse (policy : AppPolicySpec) : PolicySpec where
  appName := policy.appName
  defaultAction := policy.defaultAction
  trustDomain := policy.trustDomain
  ns := policy.ns
  operations := parseOperations lower isHTTP policy.appOperationActions

/-- What is missing from the policies of a specification. -/
structure Invalid where
  trustDomain : List String
  ns : List String
  appName : Bool
  deriving DecidableEq, Repr

def Invalid.message (invalid : Invalid) : String :=
  "invalid access control spec. missing trustdomain for apps: [" ++ " ".intercalate invalid.trustDomain ++
    "], missing namespace for apps: [" ++ " ".intercalate invalid.ns ++
    "], missing app name on at least one of the app policies: " ++ toString invalid.appName

/-- Once an app name is missing, no further policy is entered. -/
def enterPolicy (state : Invalid × AList fun _ : String => PolicySpec) (policy : AppPolicySpec) :
    Invalid × AList fun _ : String => PolicySpec :=
  let invalid : Invalid := {
    trustDomain := if policy.trustDomain = "" then state.1.trustDomain ++ [policy.appName] else state.1.trustDomain
    ns := if policy.ns = "" then state.1.ns ++ [policy.appName] else state.1.ns
    appName := state.1.appName || policy.appName = "" }
  if policy.trustDomain = "" ∨ policy.ns = "" ∨ invalid.appName = true then (invalid, state.2)
  else (invalid, state.2.insert (getKeyForAppID policy.appName policy.ns) (policy.parse lower isHTTP))

def AccessControlSpec.globalAction (spec : AccessControlSpec) : String :=
  if spec.defaultAction = "" then if spec.appPolicies = some [] then allowAccess else denyAccess
  else String.ofList (foldCase spec.defaultAction)

def parseAccessControlSpec (spec : Option AccessControlSpec) : Except Invalid (Option AccessControlList) :=
  match spec with
  | none => .ok none
  | some spec =>
    if spec.trustDomain = "" ∧ spec.defaultAction = "" ∧ spec.policies.length = 0 then .ok none
    else
      let (invalid, policySpec) := spec.policies.foldl (enterPolicy lower isHTTP) (⟨[], [], false⟩, ∅)
      if 0 < invalid.trustDomain.length ∨ 0 < invalid.ns.length ∨ invalid.appName = true then .error invalid
      else
        .ok (some {
          policySpec
          defaultAction := spec.globalAction
          trustDomain := if spec.trustDomain = "" then defaultTrustDomain else spec.trustDomain })

end

/-! ## Decisions -/

/-- The identity of a caller. -/
structure Parsed where
  trustDomain : String
  ns : String
  appID : String
  deriving DecidableEq, Repr

inductive Verb where
  | none | get | head | post | put | delete | connect | options | trace | patch
  deriving DecidableEq, Repr

def Verb.string : Verb → String
  | none => "NONE"
  | get => "GET"
  | head => "HEAD"
  | post => "POST"
  | put => "PUT"
  | delete => "DELETE"
  | connect => "CONNECT"
  | options => "OPTIONS"
  | trace => "TRACE"
  | patch => "PATCH"

/-- The action of an operation's entry, or `action` if the entry has none for the verb. -/
def OperationAction.actionFor (entry : OperationAction) (verb : Verb) (isHTTP : Bool) (defaultAction action : String) :
    String :=
  if isHTTP then
    if verb ≠ .none then
      match entry.verbAction.lookup verb.string with
      | some verbAction => verbAction
      | none => (entry.verbAction.lookup "*").getD action
    else defaultAction
  else entry.operationAction

def operationAction (appPolicy : PolicySpec) (operation : Text) (verb : Verb) (isHTTP : Bool) (action : String) :
    String :=
  match (appPolicy.operations.trie.search (pathOf operation)).bind fun name => appPolicy.operations.entries.lookup name with
  | some entry => entry.actionFor verb isHTTP appPolicy.defaultAction action
  | none => action

/-- The default of the app, if it has one, or else the global one. -/
def PolicySpec.default (appPolicy : PolicySpec) (globalAction : String) : String × String :=
  if appPolicy.defaultAction ≠ "" then (appPolicy.defaultAction, actionPolicyApp) else (globalAction, actionPolicyGlobal)

/-- The decision of a policy. An HTTP operation must be allowed both without and with its parameters. -/
def PolicySpec.decide (lower : Text → Text) (appPolicy : PolicySpec) (globalAction : String) (inputOperation : Text)
    (verb : Verb) (isHTTP : Bool) : Bool × String :=
  let (action, actionPolicy) := appPolicy.default globalAction
  let allowed := fun operation => isActionAllowed (operationAction appPolicy operation verb isHTTP action)
  let operation := withSlash inputOperation
  if isHTTP then
    let canonical := canonicalHTTPOperation lower operation
    if canonical.ok = false then (false, actionPolicy)
    else (allowed canonical.stripped && allowed canonical.decoded, actionPolicy)
  else (allowed operation, actionPolicy)

def AccessControlList.policyFor (acl : AccessControlList) (spiffeID : Parsed) : Option PolicySpec :=
  match acl.policySpec.lookup (getKeyForAppID spiffeID.appID spiffeID.ns) with
  | none => none
  | some appPolicy =>
    if appPolicy.trustDomain ≠ spiffeID.trustDomain then none
    else if appPolicy.ns ≠ spiffeID.ns then none
    else some appPolicy

def isOperationAllowedByAccessControlPolicy (lower : Text → Text) (spiffeID : Option Parsed) (inputOperation : Text)
    (verb : Verb) (isHTTP : Bool) (accessControlList : Option AccessControlList) : Bool × String :=
  match accessControlList with
  | none => (isActionAllowed allowAccess, "")
  | some acl =>
    match spiffeID.bind acl.policyFor with
    | none => (isActionAllowed acl.defaultAction, actionPolicyGlobal)
    | some appPolicy => appPolicy.decide lower acl.defaultAction inputOperation verb isHTTP

end Dapr.Acl
