import Dapr.Workflow.Event
import Dapr.Workflow.Keys
/-!
# Serialised messages and store requests

The rows of an instance hold serialised messages. How a message is serialised is the
business of protobuf and JSON, so it is a parameter here: `Wire B` is a byte format `B`
with a codec for every message type that is ever stored, and the few facts about lengths
that the code relies on. The rest of the module is the vocabulary in which state is read
from and written to the actor state store.
-/

namespace Dapr.Workflow

structure SigningCertificate where
  certificate : Blob
  deriving DecidableEq, Repr

structure ExternalSigningCertificate where
  digest : Blob
  certificate : Blob
  deriving DecidableEq, Repr

structure HistorySignature where
  startEventIndex : Nat
  eventCount : Nat
  previousSignatureDigest : Blob
  eventsDigest : Blob
  certificateIndex : Nat
  signature : Blob
  deriving DecidableEq, Repr

/-- History received from the caller; only its presence matters to the code modelled here. -/
structure PropagatedHistory where
  chunks : List Blob
  deriving DecidableEq, Repr

/-- The lengths that a save declares. -/
structure BackendWorkflowStateMetadata where
  inboxLength : Nat
  historyLength : Nat
  generation : Nat
  signatureLength : Nat
  signingCertificateLength : Nat
  externalSigningCertificateLength : Nat
  deriving DecidableEq, Repr

structure LegacyWorkflowStateMetadata where
  inboxLength : Nat
  historyLength : Nat
  generation : Nat
  deriving DecidableEq, Repr

/-- The creation a kept input belongs to. -/
structure CreationParent where
  instanceID : String
  executionID : String
  deriving DecidableEq, Repr

structure CreationInputRow where
  parent : CreationParent
  input : String
  deriving DecidableEq, Repr

/-- A message type and its serialised form. -/
structure Codec (B M : Type) where
  marshal : M → B
  unmarshal : B → Option M
  round_trip : ∀ m, unmarshal (marshal m) = some m

attribute [simp] Codec.round_trip

/-- A byte format: codecs for the stored messages, the JSON decoders kept for rows that old
binaries wrote, and the digest of a certificate. -/
structure Wire (B : Type) where
  len : B → Nat
  event : Codec B HistoryEvent
  signingCertificate : Codec B SigningCertificate
  externalSigningCertificate : Codec B ExternalSigningCertificate
  historySignature : Codec B HistorySignature
  stringValue : Codec B String
  propagatedHistory : Codec B PropagatedHistory
  metadata : Codec B BackendWorkflowStateMetadata
  creationInputRow : Codec B CreationInputRow
  legacyMetadata : B → Option LegacyWorkflowStateMetadata
  legacyString : B → Option String
  /-- The one-byte value of the parent-notify row. -/
  marker : B
  certDigest : Blob → Blob
  len_stringValue : ∀ v, len (stringValue.marshal v) = 0 ↔ v = ""
  len_metadata : ∀ m, len (metadata.marshal m) = 0 ↔ m = ⟨0, 0, 0, 0, 0, 0⟩

/-- Messages that are their own serialised form. -/
inductive Plain where
  | event (e : HistoryEvent)
  | signingCertificate (c : SigningCertificate)
  | externalSigningCertificate (c : ExternalSigningCertificate)
  | historySignature (s : HistorySignature)
  | stringValue (v : String)
  | propagatedHistory (ph : PropagatedHistory)
  | metadata (md : BackendWorkflowStateMetadata)
  | creationInputRow (row : CreationInputRow)
  | marker
  deriving DecidableEq, Repr

/-- The format that concrete runs are computed with. -/
def plainWire : Wire Plain where
  len
    | .stringValue v => v.length
    | .metadata md => if md = ⟨0, 0, 0, 0, 0, 0⟩ then 0 else 1
    | _ => 1
  event := ⟨.event, fun | .event e => some e | _ => none, fun _ => rfl⟩
  signingCertificate := ⟨.signingCertificate, fun | .signingCertificate c => some c | _ => none, fun _ => rfl⟩
  externalSigningCertificate :=
    ⟨.externalSigningCertificate, fun | .externalSigningCertificate c => some c | _ => none, fun _ => rfl⟩
  historySignature := ⟨.historySignature, fun | .historySignature s => some s | _ => none, fun _ => rfl⟩
  stringValue := ⟨.stringValue, fun | .stringValue v => some v | _ => none, fun _ => rfl⟩
  propagatedHistory := ⟨.propagatedHistory, fun | .propagatedHistory ph => some ph | _ => none, fun _ => rfl⟩
  metadata := ⟨.metadata, fun | .metadata md => some md | _ => none, fun _ => rfl⟩
  creationInputRow := ⟨.creationInputRow, fun | .creationInputRow row => some row | _ => none, fun _ => rfl⟩
  legacyMetadata _ := none
  legacyString _ := none
  marker := .marker
  certDigest der := (der ++ List.replicate 32 0).take 32
  len_stringValue v := by simp
  len_metadata md := by simp

/-! ## Requests to the state store -/

/-- The version token of a row. -/
abbrev ETag := Nat

/-- A part of a save request. -/
inductive TransactionalOperation (B : Type) where
  | upsert (key : Key) (value : B) (etag : Option ETag)
  | delete (key : Key)

/-- What a read of one key returns: a missing row has neither data nor version token. -/
structure StateItem (B : Type) where
  data : Option B
  etag : Option ETag

abbrev Rows (B : Type) := Key → Option B

namespace TransactionalOperation
open Lib.Rows

@[simp] def write {B : Type} : TransactionalOperation B → Write Key B
  | .upsert k v _ => .put k v
  | .delete k => .del k

end TransactionalOperation

/-- The rows after a transaction was applied. -/
def applyRequest {B : Type} (rows : Rows B) (req : List (TransactionalOperation B)) : Rows B :=
  Lib.Rows.applyAll rows (req.map TransactionalOperation.write)

/-- The groups, in the order in which a request writes them. -/
def Key.groups : List Key :=
  [.entry .inbox 0, .entry .history 0, .entry .sigcert 0, .entry .extSigCert 0, .entry .signature 0, .customStatus,
    .propagatedHistory, .parentNotify, .creationInput, .metadata]

theorem Key.group_mem (k : Key) : k.group ∈ groups := by
  cases k with
  | entry f i => cases f <;> simp [groups, group]
  | _ => simp [groups, group]

/-- Only the part of a request that writes a key's group matters to the key. -/
theorem applyRequest_parts {B : Type} {ops : Key → List (TransactionalOperation B)}
    (hin : ∀ g ∈ Key.groups, ∀ w ∈ (ops g).map TransactionalOperation.write, w.key.group = g) (rows : Rows B) (k : Key) :
    applyRequest rows (Key.groups.flatMap ops) k = applyRequest rows (ops k.group) k := by
  let parts := Key.groups.map fun g => (g, (ops g).map TransactionalOperation.write)
  have hin' : ∀ p ∈ parts, ∀ w ∈ p.2, w.key.group = p.1 := by
    intro p hp
    obtain ⟨g, hg, rfl⟩ := List.mem_map.1 hp
    exact hin g hg
  have hnd : (parts.map Prod.fst).Nodup := by simp [parts, Key.groups]
  have := Lib.Rows.applyAll_parts Key.group hin' hnd (List.mem_map.2 ⟨_, k.group_mem, rfl⟩) rows
  simpa [applyRequest, parts, List.flatMap_map, List.map_flatMap] using this

/-- A read of the store, which may or may not keep version tokens. -/
def readItem {B : Type} (rows : Rows B) (tags : Key → Option ETag) (k : Key) : StateItem B :=
  match rows k with
  | none => ⟨none, none⟩
  | some b => ⟨some b, tags k⟩

theorem readItem_data {B : Type} (rows : Rows B) (tags : Key → Option ETag) (k : Key) :
    (readItem rows tags k).data = rows k := by
  unfold readItem; split <;> simp_all

theorem readItem_none {B : Type} {rows : Rows B} {k : Key} (h : rows k = none) (tags : Key → Option ETag) :
    readItem rows tags k = ⟨none, none⟩ := by
  simp [readItem, h]

end Dapr.Workflow
