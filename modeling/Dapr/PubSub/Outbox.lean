import Dapr.Lib.Slices
import Mathlib.Data.List.AList
/-!
# The transactional outbox

Before a transaction goes to a store with an outbox, each set in it is published to an internal
topic, and a marker is added to the transaction under the id of the message. A set with the
metadata entry `outbox.projection` is not stored: its value is published in place of that of the
set with the same key.

The projections are taken out of the slice that the first loop ranges over, so this is right only
if they are `Separated`. The entries of a set's metadata are then written over the fields of its
event, all but `data` and `id`: an event with binary data has it under another field.

The libraries that make events and encode values are parameters, with what is documented of them.
-/

namespace Dapr.PubSub

open Lib.Slices

abbrev Bytes : Type := List UInt8

/-- A value of any type: bytes, a text, or another one. -/
inductive Any (V : Type) where
  | bytes (data : Bytes)
  | text (s : String)
  | other (v : V)
  deriving DecidableEq, Repr

structure SetRequest (V : Type) where
  key : String
  value : Any V
  metadata : AList fun _ : String => String := ∅
  contentType : Option String := none
  deriving DecidableEq

inductive Operation (V : Type) where
  | set (req : SetRequest V)
  | delete (key : String)
  deriving DecidableEq

abbrev Event (V : Type) : Type := AList fun _ : String => Any V

structure PublishRequest (V : Type) where
  pubsubName : String
  data : Event V
  topic : String

structure OutboxConfig where
  publishPubSub : String
  publishTopic : String
  outboxPubsub : String
  outboxDiscardWhenMissingState : Bool

structure Outbox where
  outboxStores : AList fun _ : String => OutboxConfig
  namespaceName : String

def outboxStatePrefix : String := "outbox"

def dataField : String := "data"

def dataBase64Field : String := "data_base64"

def idField : String := "id"

def traceIDField : String := "traceid"

def outboxTopic (appID topic namespaceName : String) : String := namespaceName ++ appID ++ topic ++ "outbox"

/-! ## The libraries -/

/-- The field of an event that has the data. -/
def fieldOf (isBinary : String → Bool) (contentType : String) : String :=
  if isBinary contentType then dataBase64Field else dataField

/-- Events are made with the data as their content, under the field for its type. -/
structure CloudEvents (V : Type) (isBinary : String → Bool) where
  content : String → Bytes → Any V
  newCloudEventsEnvelope : (id source eventType subject topic pubsubName dataContentType : String) → Bytes →
    (traceParent traceState : String) → Event V
  carries : ∀ id source eventType subject topic pubsubName dataContentType data traceParent traceState,
    (newCloudEventsEnvelope id source eventType subject topic pubsubName dataContentType data traceParent
      traceState).lookup (fieldOf isBinary dataContentType) = some (content dataContentType data)

/-- What a call meets: the random ids, the encodings, and what the publisher answers. -/
structure Env (V : Type) (isBinary : String → Bool) where
  newRandom : Nat → Except String String
  marshal : Any V → Except String Bytes
  format : Any V → Bytes
  marshalEvent : Event V → Except String Unit
  publish : Nat → Except String Unit
  events : CloudEvents V isBinary

/-! ## Publishing -/

section Publish
variable {V : Type} {isBinary : String → Bool}

def SetRequest.contentTypeOf (sr : SetRequest V) : String :=
  match sr.contentType with
  | some contentType => contentType
  | none => (sr.metadata.lookup "contentType").getD ""

def isProjection (isTruthy : String → Bool) : Operation V → Bool
  | .set sr => (sr.metadata.lookup "outbox.projection").any isTruthy
  | .delete _ => false

abbrev Projections (V : Type) : Type := AList fun _ : String => SetRequest V

def addProjection (projections : Projections V) : Operation V → Projections V
  | .set sr => projections.insert sr.key sr
  | .delete _ => projections

/-- A marker: the store has the transaction if it has the marker. -/
def transaction (uid : String) : SetRequest V := { key := outboxStatePrefix ++ "-" ++ uid, value := .text "0" }

/-- `strings.EqualFold` on a letter: besides upper case there are the long s and the Kelvin sign. -/
def foldRune (c : Char) : Char := if c.toNat = 0x17F then 's' else if c.toNat = 0x212A then 'k' else c.toLower

def isJSON (contentType : String) : Bool := contentType.toList.map foldRune = "application/json".toList

def encode (env : Env V isBinary) (payload : Any V) (contentType : String) : Except String Bytes :=
  match payload with
  | .bytes data => .ok data
  | payload =>
    if contentType ≠ "" ∧ isJSON contentType then env.marshal payload
    else .ok (env.format payload)

/-- A set's metadata over the fields of its event. -/
def overlay (metadata : AList fun _ : String => String) (ce : Event V) : Event V :=
  metadata.entries.foldl (fun ce e => if e.1 = dataField ∨ e.1 = idField then ce else ce.insert e.1 (.text e.2)) ce

/-- Where a message comes from. -/
structure Origin where
  source : String
  traceID : String
  traceState : String
  namespaceName : String

/-- The value that is published for a set, and its content type. -/
def payloadOf (projections : Projections V) (sr : SetRequest V) : Any V × String :=
  match projections.lookup sr.key with
  | some proj => (proj.value, proj.contentTypeOf)
  | none => (sr.value, sr.contentTypeOf)

def messageOf (env : Env V isBinary) (c : OutboxConfig) (origin : Origin) (projections : Projections V) (uid : String)
    (sr : SetRequest V) : Except String (PublishRequest V) :=
  let (payload, contentType) := payloadOf projections sr
  match encode env payload contentType with
  | .error err => .error err
  | .ok ceData =>
    let ce := env.events.newCloudEventsEnvelope (transaction uid : SetRequest V).key origin.source "" "" "" c.outboxPubsub
      contentType ceData "" origin.traceState
    let ce := overlay sr.metadata (ce.insert traceIDField (.text origin.traceID))
    match env.marshalEvent ce with
    | .error err => .error err
    | .ok _ => .ok ⟨c.outboxPubsub, ce, outboxTopic origin.source c.publishTopic origin.namespaceName⟩

/-- The second loop, with the markers and the messages so far. -/
def publishSets (env : Env V isBinary) (c : OutboxConfig) (origin : Origin) (projections : Projections V) :
    List (Operation V) → List (Operation V) → List (PublishRequest V) →
      Except String (List (Operation V)) × List (PublishRequest V)
  | [], markers, sent => (.ok markers, sent)
  | .delete _ :: ops, markers, sent => publishSets env c origin projections ops markers sent
  | .set sr :: ops, markers, sent =>
    match env.newRandom markers.length with
    | .error err => (.error err, sent)
    | .ok uid =>
      match messageOf env c origin projections uid sr with
      | .error err => (.error err, sent)
      | .ok req =>
        match env.publish markers.length with
        | .error err => (.error err, sent ++ [req])
        | .ok _ => publishSets env c origin projections ops (markers ++ [.set (transaction uid)]) (sent ++ [req])

inductive Outcome (V : Type) where
  | panicked
  | failed (err : String)
  | ok (operations : List (Operation V))
  deriving DecidableEq

/-- The outcome of a call, and the messages that it gave to the publisher. -/
def Outbox.publishInternal (isTruthy : String → Bool) (env : Env V isBinary) (o : Outbox) (stateStore : String)
    (operations : List (Operation V)) (source traceID traceState : String) : Outcome V × List (PublishRequest V) :=
  match o.outboxStores.lookup stateStore with
  | none =>
    (.failed ("error publishing internal outbox message: could not find outbox configuration on state store " ++
      stateStore), [])
  | some c =>
    match sweep (isProjection isTruthy) addProjection operations.length 0 (.ofList operations) ∅ with
    | none => (.panicked, [])
    | some (operations, projections) =>
      match publishSets env c ⟨source, traceID, traceState, o.namespaceName⟩ projections operations.toList [] [] with
      | (.error err, sent) => (.failed err, sent)
      | (.ok markers, sent) => (.ok (operations.toList ++ markers), sent)

end Publish

end Dapr.PubSub
