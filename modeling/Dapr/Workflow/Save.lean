import Dapr.Workflow.State
/-!
# Save and purge requests

`getSaveRequest` turns the change tracking of a state into one transaction,
`getPurgeRequest` lists the deletes that remove an instance. A save whose counters claim
more additions than the list has elements indexes out of range and panics; the model
reports that as `SaveError.indexOutOfRange`.
-/

namespace Dapr.Workflow

open Lib.Rows

inductive SaveError where
  | indexOutOfRange
  | metadataETagLost
  deriving DecidableEq, Repr

variable {α B : Type}

/-- The writes of one family: the last `addedCount` items as rows, then the deletes of the
rows beyond the list. `data` is given the position of the item among those added. -/
def addOperations (f : Family) (data : Nat → α → B) (items : List α) (addedCount removedCount : Nat) :
    Except SaveError (List (TransactionalOperation B)) :=
  if items.length < addedCount then .error .indexOutOfRange
  else
    let start := items.length - addedCount
    let upserts := (items.drop start).mapIdx fun j x => .upsert (.entry f (start + j)) (data j x) none
    let deletes := (List.range' items.length (removedCount - items.length)).map fun i => .delete (.entry f i)
    .ok (upserts ++ deletes)

def addStateOperations (W : Wire B) (f : Family) (events : List HistoryEvent) (addedCount removedCount : Nat) :=
  addOperations f (fun _ => W.event.marshal) events addedCount removedCount

def addProtoStateOperations {M : Type} (c : Codec B M) (f : Family) (items : List M) (addedCount removedCount : Nat) :=
  addOperations f (fun _ => c.marshal) items addedCount removedCount

def addRawBytesStateOperations (f : Family) (rawItems : List B) (addedCount removedCount : Nat) :=
  addOperations f (fun _ b => b) rawItems addedCount removedCount

namespace State

/-- The bytes that were signed are stored as they are; other events are marshalled. -/
def historyData (W : Wire B) (s : State B) (localIdx : Nat) (e : HistoryEvent) : B :=
  (s.marshaledNewHistory[localIdx]?).getD (W.event.marshal e)

def addHistoryOperations (W : Wire B) (s : State B) :=
  addOperations .history (s.historyData W) s.history s.historyAddedCount s.historyRemovedCount

def customStatusOperations (W : Wire B) (s : State B) : List (TransactionalOperation B) :=
  if s.writesCustomStatus then [.upsert .customStatus (W.stringValue.marshal (getValue s.customStatus)) none] else []

def incomingHistoryOperations (W : Wire B) (s : State B) : List (TransactionalOperation B) :=
  if s.incomingHistoryChanged then
    match s.incomingHistory with
    | some ph => [.upsert .propagatedHistory (W.propagatedHistory.marshal ph) none]
    | none => [.delete .propagatedHistory]
  else []

def parentNotifyOperations (W : Wire B) (s : State B) : List (TransactionalOperation B) :=
  if s.parentNotifyChanged then
    if s.parentNotifyPending then [.upsert .parentNotify W.marker none]
    else if s.parentNotifyPersisted then [.delete .parentNotify]
    else []
  else []

def creationInputOperations (W : Wire B) (s : State B) : List (TransactionalOperation B) :=
  if s.creationInputChanged then
    match s.creationInput with
    | some v => [.upsert .creationInput (W.creationInputRow.marshal ⟨s.creationInputParent, v⟩) none]
    | none => if s.creationInputPersisted then [.delete .creationInput] else []
  else []

def metadata (s : State B) : BackendWorkflowStateMetadata where
  inboxLength := s.persistableInbox.length
  historyLength := s.history.length
  generation := s.generation
  signatureLength := s.signatures.length
  signingCertificateLength := s.signingCertificates.length
  externalSigningCertificateLength := s.externalSigningCertificates.length

def getSaveRequest (W : Wire B) (s : State B) : Except SaveError (List (TransactionalOperation B)) := do
  let inbox ← addStateOperations W .inbox s.persistableInbox s.inboxAddedCount s.inboxRemovedCount
  let history ← s.addHistoryOperations W
  let sigcerts ← addProtoStateOperations W.signingCertificate .sigcert s.signingCertificates
    s.signingCertificatesAddedCount s.signingCertificatesRemovedCount
  let extSigcerts ← addProtoStateOperations W.externalSigningCertificate .extSigCert s.externalSigningCertificates
    s.externalSigningCertificatesAddedCount s.externalSigningCertificatesRemovedCount
  let signatures ← addRawBytesStateOperations .signature s.rawSignatures
    s.signaturesAddedCount s.signaturesRemovedCount
  -- a version that was known and is lost means the row was deleted: no blind upsert
  if s.metadataETag.isNone && s.metadataETagSeen then throw .metadataETagLost
  return inbox ++ history ++ sigcerts ++ extSigcerts ++ signatures ++ s.customStatusOperations W
    ++ s.incomingHistoryOperations W ++ s.parentNotifyOperations W ++ s.creationInputOperations W
    ++ [.upsert .metadata (W.metadata.marshal s.metadata) s.metadataETag]

def addPurgeStateOperations (f : Family) (count : Nat) : List (TransactionalOperation B) :=
  (List.range count).map fun i => .delete (.entry f i)

def getPurgeRequest (s : State B) : List (TransactionalOperation B) :=
  addPurgeStateOperations .inbox s.inbox.length
    ++ addPurgeStateOperations .history s.history.length
    ++ addPurgeStateOperations .sigcert s.signingCertificates.length
    ++ addPurgeStateOperations .extSigCert s.externalSigningCertificates.length
    ++ addPurgeStateOperations .signature s.signatures.length
    ++ (if s.customStatusPersisted then [.delete .customStatus] else [])
    ++ (if s.propagatedHistoryPersisted then [.delete .propagatedHistory] else [])
    ++ (if s.parentNotifyPersisted then [.delete .parentNotify] else [])
    ++ (if s.creationInputPersisted then [.delete .creationInput] else [])
    ++ [.delete .metadata]

end State

/-! ## What the writes of one family do -/

/-- The values a family's upserts write, in row order. -/
def addedData (data : Nat → α → B) (items : List α) (addedCount : Nat) : List B :=
  (items.drop (items.length - addedCount)).mapIdx data

variable {items : List α} {f : Family} {data : Nat → α → B} {added removed : Nat}
  {ops : List (TransactionalOperation B)}

theorem length_addedData (data : Nat → α → B) {addedCount : Nat} (h : addedCount ≤ items.length) :
    (addedData data items addedCount).length = addedCount := by
  simp [addedData]; omega

theorem write_upserts (f : Family) (data : Nat → α → B) (start : Nat) (items : List α) :
    (items.mapIdx fun j x => (TransactionalOperation.upsert (.entry f (start + j)) (data j x) none)).map
      TransactionalOperation.write = putsFrom (Key.entry f) start (items.mapIdx data) := by
  induction items generalizing start data with
  | nil => rfl
  | cons x xs ih =>
    have := ih (fun j => data (j + 1)) (start + 1)
    simp only [List.mapIdx_cons, List.map_cons, putsFrom, TransactionalOperation.write, Nat.add_zero]
    rw [← this]
    simp only [Nat.add_assoc, Nat.add_comm 1]

theorem write_deletes (f : Family) (i n : Nat) :
    ((List.range' i n).map fun j => (TransactionalOperation.delete (.entry f j) : TransactionalOperation B)).map
      TransactionalOperation.write = delsFrom (Key.entry f) i n := by
  induction n generalizing i with
  | zero => rfl
  | succ n ih => simp [List.range'_succ, delsFrom, TransactionalOperation.write, ← ih]

variable (h : addOperations f data items added removed = .ok ops)
include h

theorem addOperations_ok : added ≤ items.length ∧
      ops.map TransactionalOperation.write = putsFrom (Key.entry f) (items.length - added) (addedData data items added)
        ++ delsFrom (Key.entry f) items.length (removed - items.length) := by
  unfold addOperations at h
  split at h
  · cases h
  · cases h
    refine ⟨by omega, ?_⟩
    rw [List.map_append, write_upserts, write_deletes, addedData]

/-- The family's own rows after its writes. -/
theorem addOperations_entry (rows : Rows B) (i : Nat) : applyRequest rows ops (.entry f i) =
      written (fun j => rows (.entry f j)) items.length added removed (addedData data items added) i := by
  obtain ⟨ha, hw⟩ := addOperations_ok h
  rw [applyRequest, hw, applyAll_list (entry_injective f) rows (length_addedData data ha) ha]

theorem addOperations_group : ∀ w ∈ ops.map TransactionalOperation.write, w.key.group = .entry f 0 := by
  intro w hw
  rw [(addOperations_ok h).2, List.mem_append] at hw
  obtain ⟨j, hj⟩ : ∃ j, w.key = Key.entry f j := hw.elim key_of_mem_putsFrom key_of_mem_delsFrom
  rw [hj, Key.group]

end Dapr.Workflow
