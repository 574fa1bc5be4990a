import Dapr.Workflow.Wire
/-!
# The in-memory state of a workflow instance

`State` is what a host keeps of an instance between turns: the persisted lists, the optional
values, and the change tracking from which a save works out which rows to write. Each
operation below is the method of the same name.
-/

namespace Dapr.Workflow

structure Options where
  appID : String
  nspace : String
  signer : Bool
  deriving DecidableEq, Repr

/-- The state of an instance in memory, with what a save has to write. -/
structure State (B : Type) where
  appID : String
  nspace : String
  inbox : List HistoryEvent
  history : List HistoryEvent
  signingCertificates : List SigningCertificate
  externalSigningCertificates : List ExternalSigningCertificate
  signatures : List HistorySignature
  customStatus : Option String
  generation : Nat
  rawHistory : List B
  rawSignatures : List B
  marshaledNewHistory : List B
  incomingHistory : Option PropagatedHistory
  parentNotifyPending : Bool
  creationInput : Option String
  creationInputParent : CreationParent
  keepCreationInput : Bool
  /-- Digest to table index, the latest entry first. -/
  externalCertDigestIndex : List (Blob × Nat)
  metadataETag : Option ETag
  metadataETagSeen : Bool
  customStatusPersisted : Bool
  propagatedHistoryPersisted : Bool
  parentNotifyPersisted : Bool
  parentNotifyChanged : Bool
  creationInputPersisted : Bool
  creationInputChanged : Bool
  inboxAddedCount : Nat
  inboxRemovedCount : Nat
  historyAddedCount : Nat
  historyRemovedCount : Nat
  signingCertificatesAddedCount : Nat
  signingCertificatesRemovedCount : Nat
  externalSigningCertificatesAddedCount : Nat
  externalSigningCertificatesRemovedCount : Nat
  signaturesAddedCount : Nat
  signaturesRemovedCount : Nat
  incomingHistoryChanged : Bool
  customStatusChanged : Bool
  deriving DecidableEq

def newState {B : Type} (opts : Options) : State B where
  appID := opts.appID
  nspace := opts.nspace
  inbox := []
  history := []
  signingCertificates := []
  externalSigningCertificates := []
  signatures := []
  customStatus := none
  generation := 1
  rawHistory := []
  rawSignatures := []
  marshaledNewHistory := []
  incomingHistory := none
  parentNotifyPending := false
  creationInput := none
  creationInputParent := ⟨"", ""⟩
  keepCreationInput := opts.signer
  externalCertDigestIndex := []
  metadataETag := none
  metadataETagSeen := false
  customStatusPersisted := false
  propagatedHistoryPersisted := false
  parentNotifyPersisted := false
  parentNotifyChanged := false
  creationInputPersisted := false
  creationInputChanged := false
  inboxAddedCount := 0
  inboxRemovedCount := 0
  historyAddedCount := 0
  historyRemovedCount := 0
  signingCertificatesAddedCount := 0
  signingCertificatesRemovedCount := 0
  externalSigningCertificatesAddedCount := 0
  externalSigningCertificatesRemovedCount := 0
  signaturesAddedCount := 0
  signaturesRemovedCount := 0
  incomingHistoryChanged := false
  customStatusChanged := false

/-- The value of an optional string message; an absent one reads as empty. -/
def getValue (s : Option String) : String := s.getD ""

/-- What the engine hands back at the end of a turn. -/
structure WorkflowRuntimeState where
  continuedAsNew : Bool
  newEvents : List HistoryEvent
  customStatus : Option String
  deriving DecidableEq, Repr

/-- The portable form of a state, used to rerun an instance from a point of its history. -/
structure BackendWorkflowState where
  inbox : List HistoryEvent
  history : List HistoryEvent
  customStatus : Option String
  generation : Nat
  deriving DecidableEq, Repr

def creationParentOf : Option ParentInstanceInfo → CreationParent
  | none => ⟨"", ""⟩
  | some p => ⟨p.instanceId, getValue p.executionId⟩

namespace State

variable {B : Type}

/-! ## Inbox and history -/

def addToInbox (s : State B) (e : HistoryEvent) : State B :=
  { s with inbox := s.inbox ++ [e], inboxAddedCount := s.inboxAddedCount + 1 }

def addToHistory (s : State B) (e : HistoryEvent) : State B :=
  { s with history := s.history ++ [e], historyAddedCount := s.historyAddedCount + 1 }

/-- A turn puts a fired timer or a cascaded termination into the inbox by appending to the
list itself, past the change tracking. -/
def appendInbox (s : State B) (e : HistoryEvent) : State B :=
  { s with inbox := s.inbox ++ [e] }

/-- The inbox without timer events, which are never written as rows. -/
def persistableInbox (s : State B) : List HistoryEvent :=
  s.inbox.filter fun e => !e.isTimerFired

def clearInbox (s : State B) : State B :=
  { s with
    inbox := []
    inboxRemovedCount := s.inboxRemovedCount + s.persistableInbox.length
    inboxAddedCount := 0 }

def findHistoryEventByID (s : State B) (id : Int) : Option HistoryEvent :=
  s.history.find? fun e => e.eventId = id

/-- Continuing as new drops the history, and with it everything that signs it. -/
def dropHistory (s : State B) : State B :=
  { s with
    historyRemovedCount := s.historyRemovedCount + s.history.length
    historyAddedCount := 0
    history := []
    signingCertificatesRemovedCount := s.signingCertificatesRemovedCount + s.signingCertificates.length
    signingCertificatesAddedCount := 0
    signingCertificates := []
    externalSigningCertificatesRemovedCount :=
      s.externalSigningCertificatesRemovedCount + s.externalSigningCertificates.length
    externalSigningCertificatesAddedCount := 0
    externalSigningCertificates := []
    externalCertDigestIndex := []
    signaturesRemovedCount := s.signaturesRemovedCount + s.signatures.length
    signaturesAddedCount := 0
    signatures := []
    rawSignatures := [] }

def applyRuntimeStateChanges (s : State B) (rs : WorkflowRuntimeState) : State B :=
  let s := if rs.continuedAsNew then s.dropHistory else s
  { s with
    history := s.history ++ rs.newEvents
    historyAddedCount := s.historyAddedCount + rs.newEvents.length
    -- absent and empty persist as the same bytes, so only the value counts
    customStatusChanged := s.customStatusChanged || getValue s.customStatus != getValue rs.customStatus
    customStatus := rs.customStatus }

/-! ## Signing data -/

def addSigningCertificate (s : State B) (cert : SigningCertificate) : State B :=
  { s with
    signingCertificates := s.signingCertificates ++ [cert]
    signingCertificatesAddedCount := s.signingCertificatesAddedCount + 1 }

/-- `none` when the digest has not the size of a SHA-256 sum. The index returned is that of
the certificate in the table. -/
def addExternalCert (s : State B) (digest certDER : Blob) : Option (Nat × State B) :=
  if digest.length ≠ 32 then none
  else match s.externalCertDigestIndex.lookup digest with
    | some idx => some (idx, s)
    | none =>
      let idx := s.externalSigningCertificates.length
      some (idx, { s with
        externalSigningCertificates := s.externalSigningCertificates ++ [⟨digest, certDER⟩]
        externalSigningCertificatesAddedCount := s.externalSigningCertificatesAddedCount + 1
        externalCertDigestIndex := (digest, idx) :: s.externalCertDigestIndex })

def addSignature (s : State B) (sig : HistorySignature) (raw : B) : State B :=
  { s with
    signatures := s.signatures ++ [sig]
    rawSignatures := s.rawSignatures ++ [raw]
    signaturesAddedCount := s.signaturesAddedCount + 1 }

def setMarshaledNewHistory (s : State B) (raw : List B) : State B :=
  { s with marshaledNewHistory := raw }

/-! ## Optional rows -/

def setIncomingHistory (s : State B) (ph : Option PropagatedHistory) : State B :=
  { s with incomingHistory := ph, incomingHistoryChanged := true }

/-- A creation without input is kept as the empty value. -/
def setCreationInput (s : State B) (input : Option String) (parent : Option ParentInstanceInfo) : State B :=
  { s with
    creationInput := some (getValue input)
    creationInputParent := creationParentOf parent
    creationInputChanged := true }

def keepCreationInputOf (s : State B) (start : ExecutionStartedEvent) : State B :=
  if !s.keepCreationInput || start.parentInstance.isNone then s
  else s.setCreationInput start.input start.parentInstance

def clearCreationInput (s : State B) : State B :=
  if s.creationInput.isSome || s.creationInputPersisted then
    { s with creationInput := none, creationInputParent := ⟨"", ""⟩, creationInputChanged := true }
  else s

def setParentNotifyPending (s : State B) (pending : Bool) : State B :=
  { s with
    parentNotifyChanged :=
      s.parentNotifyChanged || (s.parentNotifyPending != pending || (pending && !s.parentNotifyPersisted))
    parentNotifyPending := pending }

def setMetadataETag (s : State B) (etag : Option ETag) : State B :=
  { s with metadataETag := etag, metadataETagSeen := s.metadataETagSeen || etag.isSome }

/-! ## Starting over -/

def reset (s : State B) : State B :=
  { s with
    inboxAddedCount := 0
    inboxRemovedCount := s.inboxRemovedCount + s.inbox.length
    inbox := []
    historyAddedCount := 0
    historyRemovedCount := s.historyRemovedCount + s.history.length
    history := []
    rawHistory := []
    signingCertificatesAddedCount := 0
    signingCertificatesRemovedCount := s.signingCertificatesRemovedCount + s.signingCertificates.length
    signingCertificates := []
    externalSigningCertificatesAddedCount := 0
    externalSigningCertificatesRemovedCount :=
      s.externalSigningCertificatesRemovedCount + s.externalSigningCertificates.length
    externalSigningCertificates := []
    externalCertDigestIndex := []
    signaturesAddedCount := 0
    signaturesRemovedCount := s.signaturesRemovedCount + s.signatures.length
    signatures := []
    rawSignatures := []
    customStatusChanged := s.customStatusChanged || getValue s.customStatus != ""
    customStatus := none
    incomingHistoryChanged := s.incomingHistoryChanged || s.incomingHistory.isSome
    incomingHistory := none
    parentNotifyChanged := s.parentNotifyChanged || (s.parentNotifyPending || s.parentNotifyPersisted)
    parentNotifyPending := if s.parentNotifyPending || s.parentNotifyPersisted then false else s.parentNotifyPending
    creationInputChanged := s.creationInputChanged || (s.creationInput.isSome || s.creationInputPersisted)
    creationInput := if s.creationInput.isSome || s.creationInputPersisted then none else s.creationInput
    generation := s.generation + 1 }

def fromWorkflowState (s : State B) (ws : BackendWorkflowState) : State B :=
  let s := ws.inbox.foldl addToInbox s.reset
  let s := ws.history.foldl addToHistory s
  { s with
    customStatus := ws.customStatus
    customStatusChanged := true
    generation := ws.generation }

/-- Whether the next save writes the custom status row. -/
def writesCustomStatus (s : State B) : Bool :=
  (s.historyAddedCount > 0 || s.historyRemovedCount > 0) && (s.customStatusChanged || !s.customStatusPersisted)

def resetChangeTracking (s : State B) : State B :=
  { s with
    customStatusPersisted := s.writesCustomStatus || s.customStatusPersisted
    customStatusChanged := !s.writesCustomStatus && s.customStatusChanged
    propagatedHistoryPersisted :=
      if s.incomingHistoryChanged then s.incomingHistory.isSome else s.propagatedHistoryPersisted
    parentNotifyPersisted := if s.parentNotifyChanged then s.parentNotifyPending else s.parentNotifyPersisted
    parentNotifyChanged := false
    creationInputPersisted := if s.creationInputChanged then s.creationInput.isSome else s.creationInputPersisted
    creationInputChanged := false
    inboxAddedCount := 0
    inboxRemovedCount := 0
    historyAddedCount := 0
    historyRemovedCount := 0
    signingCertificatesAddedCount := 0
    signingCertificatesRemovedCount := 0
    externalSigningCertificatesAddedCount := 0
    externalSigningCertificatesRemovedCount := 0
    signaturesAddedCount := 0
    signaturesRemovedCount := 0
    marshaledNewHistory := []
    rawHistory := []
    incomingHistoryChanged := false }

/-! ## The persistable inbox after each operation -/

@[simp] theorem persistableInbox_appendInbox (s : State B) (e : HistoryEvent) :
    (s.appendInbox e).persistableInbox = s.persistableInbox ++ [e].filter fun e => !e.isTimerFired := by
  simp [persistableInbox, appendInbox]

@[simp] theorem persistableInbox_addToInbox (s : State B) (e : HistoryEvent) :
    (s.addToInbox e).persistableInbox = s.persistableInbox ++ [e].filter fun e => !e.isTimerFired :=
  persistableInbox_appendInbox s e

theorem length_persistableInbox_le (s : State B) : s.persistableInbox.length ≤ s.inbox.length :=
  List.length_filter_le _ _

/-! ## Terminal states -/

def isCompleted (s : State B) : Bool :=
  (s.history.getLast?.bind HistoryEvent.getExecutionCompleted).isSome

end State

def errorTypeHistoryTampered : String := "DAPR_WORKFLOW_HISTORY_TAMPERED"

/-- The unsigned terminal event that records detected tampering. -/
def isTamperMarker (e : HistoryEvent) : Bool :=
  match e.getExecutionCompleted with
  | none => false
  | some ec =>
    ec.workflowStatus = .failed ∧ (ec.failureDetails.map (·.errorType)) = some errorTypeHistoryTampered

theorem completed_of_isTamperMarker {e : HistoryEvent} (h : isTamperMarker e = true) :
    e.getExecutionCompleted.isSome = true := by
  unfold isTamperMarker at h
  split at h
  · cases h
  · next heq => simp [heq]

def State.hasTamperMarker {B : Type} (s : State B) : Bool :=
  (s.history.getLast?.map isTamperMarker).getD false

end Dapr.Workflow
