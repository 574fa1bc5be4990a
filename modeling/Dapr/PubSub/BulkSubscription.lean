import Mathlib.Data.List.AList
import Dapr.PubSub.BulkSubscriber
/-!
# The bulk handler of a subscription

The broker hands the handler a bulk message. Each entry is decoded and put under the path of its route,
the application is called once for every path, under the subscription's policy, and entries that failed
go to the dead-letter topic. What came out is merged into one slice of responses, by entry id.

The JSON and expression libraries, the application and the broker are outside: what they answer is part
of `Subscription` and `World`. An attempt that timed out is abandoned: what the application answers to it
later reaches nobody and is left out. So are the sends of a single entry to the dead-letter topic, for one
that is dropped: the handler ignores how they end.
-/

namespace Dapr.BulkSubscription

open Dapr.BulkSubscriber (Outcome)

variable {Event CloudEvent : Type}

/-- `TopicEventResponse`; other numbers may come from the application too. -/
inductive Status where
  | success
  | retry
  | drop
  | unknown (status : Int)
  deriving DecidableEq, Repr

inductive Err where
  | blankEntryId
  | canceled
  | deadlineExceeded
  /-- From a library, the breaker or the channel to the application. -/
  | outside (text : String)
  /-- The application's, with a gRPC code if it has one. -/
  | call (code : Option Nat)
  | status (entryId : String) (status : Status)
  | noResponse (entryId : String)
  | someFailed
  deriving DecidableEq, Repr

abbrev Response := String × Option Err

structure Entry (Event : Type) where
  entryId : String
  event : Event
  deriving DecidableEq, Repr

structure Message (CloudEvent : Type) where
  entryId : String
  cloudEvent : Option CloudEvent
  deriving DecidableEq, Repr

/-- A rule without an expression matches everything. The result of an expression may not be a Boolean. -/
structure Rule (Elem : Type) where
  eval : Option (Elem → Except Err (Option Bool))
  path : String

/-- What the handler of a topic is set up with. -/
structure Subscription (Event CloudEvent : Type) where
  isRawPayload : Except Err Bool
  unmarshal : Event → Except Err CloudEvent
  hasExpired : CloudEvent → Bool
  rules : List (Rule (Event ⊕ CloudEvent))
  deadLetterTopic : String
  /-- The error of building the application's message, if any. -/
  extractCloudEvent : Option CloudEvent → Option Err

def matchRoutingRule {Elem : Type} : List (Rule Elem) → Elem → Except Err (Option (Rule Elem))
  | [], _ => .ok none
  | rule :: rules, elem =>
    match rule.eval with
    | none => .ok (some rule)
    | some eval =>
      match eval elem with
      | .error err => .error err
      | .ok none => .error (.outside "the result of match expression was not a boolean")
      | .ok (some true) => .ok (some rule)
      | .ok (some false) => matchRoutingRule rules elem

/-- The path, if the event is to be processed. -/
def findMatchingRoute {Elem : Type} (rules : List (Rule Elem)) (elem : Elem) : Except Err (Option String) :=
  (matchRoutingRule rules elem).map (·.map (·.path))

/-! ## Decoding and routing -/

/-- What the loop over the entries finds out about one. -/
inductive Finding (CloudEvent : Type) where
  | blank
  | undecodable (err : Err)
  | expired
  | ruleFailed (err : Err)
  | routed (cloudEvent : Option CloudEvent) (path : Option String)

def Subscription.examine (sub : Subscription Event CloudEvent) (rawPayload : Bool) (e : Entry Event) :
    Finding CloudEvent :=
  if e.entryId = "" then .blank
  else if rawPayload then
    match findMatchingRoute sub.rules (.inl e.event) with
    | .error err => .ruleFailed err
    | .ok path => .routed none path
  else
    match sub.unmarshal e.event with
    | .error err => .undecodable err
    | .ok cloudEvent =>
      if sub.hasExpired cloudEvent then .expired
      else
        match findMatchingRoute sub.rules (.inr cloudEvent) with
        | .error err => .ruleFailed err
        | .ok path => .routed (some cloudEvent) path

/-- The entry's response after the loop. That of an entry with a route is not set yet. -/
def Finding.response (entryId : String) : Finding CloudEvent → Response
  | .blank => ("", some .blankEntryId)
  | .undecodable err => (entryId, some err)
  | .expired => (entryId, none)
  | .ruleFailed err => (entryId, some err)
  | .routed _ none => (entryId, none)
  | .routed _ (some _) => ("", none)

def Finding.failed : Finding CloudEvent → Bool
  | .blank | .undecodable _ | .ruleFailed _ => true
  | .expired | .routed _ _ => false

/-- The path that the entry is delivered on. One without a route goes to the application all the same. -/
def Finding.path : Finding CloudEvent → Option String
  | .routed _ path => some (path.getD "")
  | _ => none

/-- The variables of the handler while it goes through the entries. -/
structure Prepared (CloudEvent : Type) where
  bulkResponses : List Response
  entryIdIndexMap : AList fun _ : String => Nat
  routePathBulkMessageMap : AList fun _ : String => List (Message CloudEvent)
  err : Option Err
  hasAnyError : Bool

def Prepared.start (n : Nat) : Prepared CloudEvent := ⟨.replicate n ("", none), ∅, ∅, none, false⟩

def Prepared.messages (p : Prepared CloudEvent) (path : String) : List (Message CloudEvent) :=
  (p.routePathBulkMessageMap.lookup path).getD []

def Prepared.add (p : Prepared CloudEvent) (rawPayload : Bool) (i : Nat) (entryId : String)
    (found : Finding CloudEvent) : Prepared CloudEvent where
  bulkResponses := p.bulkResponses.set i (found.response entryId)
  entryIdIndexMap := if entryId = "" then p.entryIdIndexMap else p.entryIdIndexMap.insert entryId i
  routePathBulkMessageMap :=
    match found with
    | .routed cloudEvent path =>
      p.routePathBulkMessageMap.insert (path.getD "") (p.messages (path.getD "") ++ [⟨entryId, cloudEvent⟩])
    | _ => p.routePathBulkMessageMap
  -- each cloud event that is decoded sets `err`, with or without an error
  err :=
    match found with
    | .blank => p.err
    | .undecodable err => some err
    | _ => if rawPayload then p.err else none
  hasAnyError := p.hasAnyError || found.failed

def Subscription.prepare (sub : Subscription Event CloudEvent) (rawPayload : Bool) :
    Nat → List (Entry Event) → Prepared CloudEvent → Prepared CloudEvent
  | _, [], p => p
  | i, e :: entries, p =>
    sub.prepare rawPayload (i + 1) entries (p.add rawPayload i e.entryId (sub.examine rawPayload e))

/-! ## One attempt to deliver -/

/-- What the application answers. -/
inductive Reply where
  | error (code : Option Nat)
  | statuses (statuses : List (String × Status))
  deriving DecidableEq, Repr

/-- `codes.Unimplemented`. -/
def unimplemented : Nat := 12

/-- `OnBulkTopicEventAlpha1` is called if `OnBulkTopicEvent` is not implemented. -/
def fallback (v1 alpha : Reply) : Reply := if v1 = .error (some unimplemented) then alpha else v1

/-- What happens outside in an attempt: the breaker refuses it, it times out, it ends before the call, or the
application is called. -/
inductive Attempt where
  | refused (err : Err)
  | timedOut (err : Err)
  | unsent (err : Err)
  | called (v1 alpha : Reply)
  deriving DecidableEq, Repr

def fetchEntry (sub : Subscription Event CloudEvent) (rawPayload : Bool) (m : Message CloudEvent) : Option Err :=
  if rawPayload then none else sub.extractCloudEvent m.cloudEvent

def statusError (entryId : String) : Status → Option Err
  | .success | .drop => none
  | status => some (.status entryId status)

/-- The responses for the statuses, and the messages that are left without an answer. -/
def answers : List (String × Status) → List String → List Response × List String
  | [], attemptMsgs => ([], attemptMsgs)
  | (entryId, status) :: statuses, attemptMsgs =>
    if entryId ∈ attemptMsgs then
      let (responses, left) := answers statuses (attemptMsgs.filter (· ≠ entryId))
      ((entryId, statusError entryId status) :: responses, left)
    else answers statuses attemptMsgs

/-- The end of `DeliverBulk`, from the call on: what it adds to the responses, and its error. -/
def respond (pubSubMessages attemptMsgs : List String) : Reply → List Response × Option Err
  | .error code =>
    if code = some unimplemented then (pubSubMessages.map (·, none), none)
    else (pubSubMessages.map (·, some (.call code)), some (.call code))
  | .statuses statuses =>
    let (responses, left) := answers statuses attemptMsgs
    let missing := pubSubMessages.filter (· ∈ left)
    let hasAnyError := responses.any (·.2.isSome) || !missing.isEmpty
    (responses ++ missing.map fun entryId => (entryId, some (.noResponse entryId)),
      if hasAnyError then some .someFailed else none)

/-- What the world outside has seen. -/
inductive Happening where
  /-- The application answered a call with these entries. -/
  | called (entryIds : List String) (reply : Reply)
  | published (entryIds : List String)
  deriving DecidableEq, Repr

/-! ## Resiliency -/

/-- The responses, and the messages of a route that are still to be delivered. -/
structure Delivery (CloudEvent : Type) where
  bulkResponses : List Response
  pending : List (Message CloudEvent)
  log : List Happening

/-- The response that the index map leads to. -/
def responseOf (entryIdIndexMap : AList fun _ : String => Nat) (bulkResponses : List Response) (entryId : String) :
    Option Response :=
  (entryIdIndexMap.lookup entryId).bind (bulkResponses[·]?)

/-- A response is added to the main ones. -/
def put (entryIdIndexMap : AList fun _ : String => Nat) (bulkResponses : List Response) (v : Response) : List Response :=
  match entryIdIndexMap.lookup v.1 with
  | some index => bulkResponses.set index v
  | none => bulkResponses

def merge (entryIdIndexMap : AList fun _ : String => Nat) (bulkResponses entries : List Response) : List Response :=
  entries.foldl (put entryIdIndexMap) bulkResponses

def Delivery.accumulator (d : Delivery CloudEvent) (entryIdIndexMap : AList fun _ : String => Nat)
    (entries : List Response) : Delivery CloudEvent :=
  let bulkResponses := merge entryIdIndexMap d.bulkResponses entries
  { d with
    bulkResponses
    pending := d.pending.filter fun m =>
      ((responseOf entryIdIndexMap bulkResponses m.entryId).bind (·.2)).isSome }

section Attempts
variable (sub : Subscription Event CloudEvent) (rawPayload : Bool) (entryIdIndexMap : AList fun _ : String => Nat)

/-- The responses for the messages that cannot be built. -/
def fetchErrors (pending : List (Message CloudEvent)) : List Response :=
  pending.filterMap fun m => (fetchEntry sub rawPayload m).map fun err => (m.entryId, some err)

def attemptMsgs (pending : List (Message CloudEvent)) : List String :=
  (pending.filter fun m => (fetchEntry sub rawPayload m).isNone).map (·.entryId)

def attempt (d : Delivery CloudEvent) : Attempt → Delivery CloudEvent × Option Err
  | .refused err => (d, some err)
  | .timedOut err => (d, some err)
  | .unsent err => (d.accumulator entryIdIndexMap (fetchErrors sub rawPayload d.pending), some err)
  | .called v1 alpha =>
    let items := attemptMsgs sub rawPayload d.pending
    let (responses, err) := respond (d.pending.map (·.entryId)) items (fallback v1 alpha)
    let called : Delivery CloudEvent := { d with log := d.log ++ [.called items (fallback v1 alpha)] }
    (called.accumulator entryIdIndexMap (fetchErrors sub rawPayload d.pending ++ responses), err)

/-- Attempts are made until one succeeds or the policy gives up. -/
def runAttempts : Attempt → List Attempt → Delivery CloudEvent → Delivery CloudEvent × Option Err
  | a, [], d => attempt sub rawPayload entryIdIndexMap d a
  | a, b :: rest, d =>
    match attempt sub rawPayload entryIdIndexMap d a with
    | (d', none) => (d', none)
    | (d', some _) => runAttempts b rest d'

end Attempts

/-- The attempts on a path. The wait for another one may end with the context. -/
structure Run where
  first : Attempt
  rest : List Attempt
  interrupted : Option Err
  deriving DecidableEq, Repr

def Run.attempts (run : Run) : List Attempt := run.first :: run.rest

/-- An entry without a response gets the error of this delivery. -/
def touch (err : Option Err) (bulkResponses : List Response) (entryId : String) (index : Nat) : List Response :=
  if (bulkResponses[index]?).map (·.1) = some "" then bulkResponses.set index (entryId, err) else bulkResponses

def touchAll (entryIdIndexMap : AList fun _ : String => Nat) (err : Option Err) (bulkResponses : List Response) :
    List Response :=
  entryIdIndexMap.entries.foldl (fun responses entry => touch err responses entry.1 entry.2) bulkResponses

def applyBulkSubscribeResiliency (sub : Subscription Event CloudEvent) (rawPayload : Bool)
    (entryIdIndexMap : AList fun _ : String => Nat) (run : Run) (psm : List (Message CloudEvent))
    (bulkResponses : List Response) (log : List Happening) : List Response × List Happening × Option Err :=
  let ran := runAttempts sub rawPayload entryIdIndexMap run.first run.rest ⟨bulkResponses, psm, log⟩
  let err := ran.2.map fun err => run.interrupted.getD err
  (touchAll entryIdIndexMap err ran.1.bulkResponses, ran.1.log, err)

/-! ## The handler -/

/-- `order` is that in which Go goes through the paths. `publishes` is whether the dead-letter topic takes the
entries, in time. -/
structure World where
  run : String → Run
  order : List String → List String
  order_perm : ∀ paths, (order paths).Perm paths
  publishes : Bool

/-- The handler's variables while it goes through the paths. -/
structure Invoked where
  bulkResponses : List Response
  log : List Happening
  err : Option Err
  overallInvokeErr : Option Err

def Prepared.uninvoked (p : Prepared CloudEvent) : Invoked := ⟨p.bulkResponses, [], p.err, none⟩

/-- `createEnvelopeAndInvokeSubscriber` for a path, and what the handler keeps of it. -/
def invokePath (sub : Subscription Event CloudEvent) (w : World) (rawPayload : Bool) (p : Prepared CloudEvent)
    (path : String) (s : Invoked) : Invoked :=
  let invoked := applyBulkSubscribeResiliency sub rawPayload p.entryIdIndexMap (w.run path) (p.messages path)
    s.bulkResponses s.log
  { bulkResponses := invoked.1
    log := invoked.2.1
    err := invoked.2.2.or s.err
    overallInvokeErr := invoked.2.2.or s.overallInvokeErr }

def invoke (sub : Subscription Event CloudEvent) (w : World) (rawPayload : Bool) (p : Prepared CloudEvent) :
    List String → Invoked → Invoked
  | [], s => s
  | path :: paths, s => invoke sub w rawPayload p paths (invokePath sub w rawPayload p path s)

/-- The entries for the dead-letter topic. The index map has no blank id and answers 0 for it. -/
def deadLetters (entries : List (Entry Event)) (entryIdIndexMap : AList fun _ : String => Nat)
    (bulkResponses : List Response) : List String :=
  (entries.filter fun e =>
    ((bulkResponses[(entryIdIndexMap.lookup e.entryId).getD 0]?).bind (·.2)).isSome).map (·.entryId)

def Subscription.deadLettered (sub : Subscription Event CloudEvent) (w : World) : Bool :=
  sub.deadLetterTopic ≠ "" && w.publishes

/-- The end of the handler: dead-lettering, and the answer to the broker. -/
def report (sub : Subscription Event CloudEvent) (w : World) (entries : List (Entry Event)) (p : Prepared CloudEvent)
    (s : Invoked) : Outcome String Err × List Happening :=
  if s.overallInvokeErr = some .canceled then (⟨some s.bulkResponses, s.overallInvokeErr⟩, s.log)
  else if p.hasAnyError || s.overallInvokeErr.isSome then
    if sub.deadLettered w then
      (⟨none, none⟩, s.log ++ [.published (deadLetters entries p.entryIdIndexMap s.bulkResponses)])
    else (⟨some s.bulkResponses, s.err⟩, s.log)
  else (⟨some s.bulkResponses, s.err⟩, s.log)

def bulkHandler (sub : Subscription Event CloudEvent) (w : World) (entries : List (Entry Event)) :
    Outcome String Err × List Happening :=
  match sub.isRawPayload with
  | .error err =>
    if sub.deadLettered w then (⟨none, none⟩, [.published (entries.map (·.entryId))])
    else (⟨some (entries.map fun e => (e.entryId, some err)), some err⟩, [])
  | .ok rawPayload =>
    let p := sub.prepare rawPayload 0 entries (.start entries.length)
    report sub w entries p (invoke sub w rawPayload p (w.order p.routePathBulkMessageMap.keys) p.uninvoked)

end Dapr.BulkSubscription
