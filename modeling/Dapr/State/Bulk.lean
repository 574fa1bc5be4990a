import Mathlib.Data.List.Perm.Basic
import Mathlib.Data.List.Nodup
/-!
# Bulk state operations

A bulk set or delete is tried until the store has done it or the policy gives up. After an attempt
in which some keys failed, only those that can be retried are sent again. Which ones is computed by
an accumulator: for each key it takes the index of its request in the first list, and then the
request at that index of the list that was sent last. The two lists are the same only at the first
attempt.

What an attempt meets is given by `Attempt`: the answers of the store, a timeout, a circuit breaker
that does not let it through, and a backoff that stops.
-/

namespace Dapr.State

variable {R : Type} (key : R → String)

/-! ## Errors of the store -/

inductive ETagKind where
  | invalid
  | mismatch
  deriving DecidableEq, Repr

/-- An error in a multi-error: one for a key, with an etag error or without, or another one. -/
inductive ItemError where
  | bulk (key : String) (etag : Option ETagKind)
  | other
  deriving DecidableEq, Repr

/-- An error of a bulk operation, which may be a multi-error. -/
inductive StoreError where
  | plain
  | multi (errs : List ItemError)
  deriving DecidableEq, Repr

def ItemError.key? : ItemError → Option String
  | .bulk k _ => some k
  | .other => none

def ItemError.retriable? : ItemError → Option String
  | .bulk k none => some k
  | _ => none

def failedKeys (errs : List ItemError) : List String := errs.filterMap ItemError.key?

/-- The keys that failed without an etag error. -/
def retriableKeys (errs : List ItemError) : List String := errs.filterMap ItemError.retriable?

/-- What an attempt meets. A store reports keys that it was sent, each of them once. -/
structure Attempt where
  single : R → Option Bool
  multi : List R → Option StoreError
  late : Bool
  refused : Bool
  excluded : Bool
  stop : Bool
  reported : ∀ sent errs, multi sent = some (.multi errs) → (failedKeys errs).Nodup ∧ failedKeys errs ⊆ sent.map key

/-! ## The operation -/

inductive Cause where
  | store (err : StoreError)
  | single (etag : Bool)
  | etag (kind : ETagKind)
  | timeout
  | breaker
  deriving DecidableEq, Repr

structure OpError where
  permanent : Bool
  cause : Cause
  deriving DecidableEq, Repr

/-- What the errors of a bulk request come to. -/
structure Found where
  canRetry : Bool
  etagInvalid : Bool
  retry : List String
  deriving DecidableEq, Repr

/-- The loop over a multi-error. An error that is for no key ends it. -/
def classify : List ItemError → Found → Option Found
  | [], found => some found
  | .other :: _, _ => none
  | .bulk k none :: errs, found => classify errs { found with canRetry := true, retry := found.retry ++ [k] }
  | .bulk _ (some .invalid) :: errs, found => classify errs { found with etagInvalid := true }
  | .bulk _ (some .mismatch) :: errs, found => classify errs found

variable {key}

/-- What a bulk request comes to: the keys to retry, if there is such a list, and the error. -/
def bulkResult : Option StoreError → Option (List String) × Option OpError
  | none => (none, none)
  | some .plain => (none, some ⟨false, .store .plain⟩)
  | some (.multi errs) =>
    if errs.length = 0 then (none, some ⟨false, .store (.multi errs)⟩)
    else
      match classify errs ⟨false, false, []⟩ with
      | none => (none, some ⟨false, .store (.multi errs)⟩)
      | some found =>
        if found.canRetry then (some found.retry, some ⟨false, .store (.multi errs)⟩)
        else (some found.retry, some ⟨true, .etag (if found.etagInvalid then .invalid else .mismatch)⟩)

/-- The function that the policy runs. A single request is not sent in bulk, and an etag error of it is permanent. -/
def operation (rReqs : List R) (a : Attempt key) : Option (List String) × Option OpError :=
  match rReqs with
  | [req] =>
    match a.single req with
    | none => (none, none)
    | some etag => (none, some ⟨etag, .single etag⟩)
  | rReqs => bulkResult (a.multi rReqs)

variable (key) in
def requestWithKey (reqs : List R) (k : String) : Option Nat := reqs.findIdx? fun r => key r = k

variable (key) in
/-- The requests for the keys to retry. The index is one of `reqs`, and may be out of the bounds of `rReqs`. -/
def accumulate (reqs rReqs : List R) : List String → Option (List R)
  | [] => some []
  | retryKey :: retry =>
    match requestWithKey key reqs retryKey with
    | none => accumulate reqs rReqs retry
    | some i =>
      match rReqs[i]? with
      | none => none
      | some req => (accumulate reqs rReqs retry).map (req :: ·)

variable (key) in
/-- The requests of the next attempt: the accumulator runs if there is a list of keys. -/
def nextReqs (reqs rReqs : List R) : Option (List String) → Option (List R)
  | none => some rReqs
  | some retry => accumulate key reqs rReqs retry

/-! ## The policy -/

structure PolicyDefinition where
  timeout : Bool
  breaker : Bool
  maxRetries : Option Int

def hasRetries (policyDef : Option PolicyDefinition) : Bool :=
  match policyDef with
  | none => false
  | some p => p.maxRetries.any (· ≠ 0)

/-- The result of an attempt, without the keys to retry if it came too late. -/
def result (policyDef : Option PolicyDefinition) (rReqs : List R) (a : Attempt key) :
    Option (List String) × Option OpError :=
  if policyDef.any (·.timeout) ∧ a.late then (none, some ⟨false, .timeout⟩) else operation rReqs a

/-- Whether there is another attempt after an error, with `made` retries so far. -/
def retries (policyDef : Option PolicyDefinition) (made : Nat) (a : Attempt key) (err : OpError) : Bool :=
  match policyDef.bind (·.maxRetries) with
  | none => false
  | some max => !err.permanent && !a.excluded && !a.stop && (max < 0 || made < max)

/-- What the caller of the store sees of an attempt: all done, nothing known to be done, or errors for some keys. -/
inductive Answer where
  | done
  | failed
  | items (errs : List ItemError)
  deriving DecidableEq, Repr

/-- One request to the store. -/
structure Visit (R : Type) where
  sent : List R
  answer : Answer

inductive Ending where
  | running
  | panicked
  | returned (err : Option Cause)
  deriving DecidableEq, Repr

/-- All requests of an operation, and its end. -/
structure Trace (R : Type) where
  visits : List (Visit R)
  ending : Ending

def bulkAnswer : Option StoreError → Answer
  | none => .done
  | some .plain => .failed
  | some (.multi errs) => if errs = [] ∨ .other ∈ errs then .failed else .items errs

/-- How the store answered the requests it was sent. -/
def answerOf (policyDef : Option PolicyDefinition) (rReqs : List R) (a : Attempt key) : Answer :=
  if policyDef.any (·.timeout) ∧ a.late then .failed
  else
    match rReqs with
    | [req] => if (a.single req).isNone then .done else .failed
    | rReqs => bulkAnswer (a.multi rReqs)

/-- The attempts from a list of requests on, with the visits to the store. -/
def attempts (policyDef : Option PolicyDefinition) (reqs : List R) : List R → Nat → List (Attempt key) → Trace R
  | _, _, [] => ⟨[], .running⟩
  | rReqs, made, a :: rest =>
    if policyDef.any (·.breaker) ∧ a.refused then ⟨[], .returned (some .breaker)⟩
    else
      let visit := ⟨rReqs, answerOf policyDef rReqs a⟩
      let (retry, err) := result policyDef rReqs a
      match nextReqs key reqs rReqs retry with
      | none => ⟨[visit], .panicked⟩
      | some newReqs =>
        match err with
        | none => ⟨[visit], .returned none⟩
        | some err =>
          if retries policyDef made a err then
            let t := attempts policyDef reqs newReqs (made + 1) rest
            ⟨visit :: t.visits, t.ending⟩
          else ⟨[visit], .returned (some err.cause)⟩

def performBulkStoreOperation (policyDef : Option PolicyDefinition) (reqs : List R) (as : List (Attempt key)) :
    Trace R :=
  attempts policyDef reqs reqs 0 as

end Dapr.State
