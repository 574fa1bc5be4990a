import Dapr.Workflow.Save
/-!
# Loading an instance

`loadWorkflowStateOnce` reads the metadata row, then every row it declares together with the
optional rows in one bulk read. The two reads are separate requests, so they are separate
arguments here. A failure may come with the state read so far, which the caller needs to
record the failure; `LoadResult` is that pair.
-/

namespace Dapr.Workflow

inductive LoadError where
  | malformedMetadata
  /-- A declared length beyond `maxStateEntries`. -/
  | lengthExceeded (f : Family) (value : Nat)
  /-- A declared inbox or history row is missing; retried with fresh metadata. -/
  | transientKeyMismatch (k : Key) (etag : Option ETag)
  | malformedRow (k : Key)
  | missingSigningRow (k : Key)
  | externalCertDigest (i : Nat)
  | noSigner
  | noAppID
  | noNamespace
  | chainRejected
  | unsignedHistory (n : Nat)
  deriving DecidableEq, Repr

/-- The errors that mean this host cannot run the instance, whatever its rows say. -/
def LoadError.isConfigurationError : LoadError → Bool
  | .noSigner | .noAppID | .noNamespace | .unsignedHistory .. => true
  | _ => false

structure LoadResult (B : Type) where
  state : Option (State B)
  err : Option LoadError

/-- The signature library as the loader uses it: the check of a whole chain, and the SPIFFE
path in a certificate chain's leaf (none when it cannot be parsed). -/
structure ChainVerifier (B : Type) where
  verifyChain : (rawSignatures : List B) → (certs : List SigningCertificate) → (allRawEvents : List B) → Bool
  spiffePath : Blob → Option String

variable {B M : Type}

def maxStateEntries : Nat := 1000000

/-! ## Rows of one family -/

/-- Why reading a family stopped, with what was read before. -/
inductive EntryFailure (M B : Type) where
  | missing (i : Nat) (before : List (M × B))
  | malformed (i : Nat)

def EntryFailure.after (x : M × B) : EntryFailure M B → EntryFailure M B
  | .missing i before => .missing i (x :: before)
  | .malformed i => .malformed i

/-- Decode the rows with the given numbers in order. -/
def readEntries (bulk : Key → StateItem B) (f : Family) (unmarshal : B → Option M) :
    List Nat → Except (EntryFailure M B) (List (M × B))
  | [] => .ok []
  | i :: is =>
    match (bulk (.entry f i)).data with
    | none => .error (.missing i [])
    | some b =>
      match unmarshal b with
      | none => .error (.malformed i)
      | some m =>
        match readEntries bulk f unmarshal is with
        | .ok rest => .ok ((m, b) :: rest)
        | .error e => .error (e.after (m, b))

/-! ## The parts of a load -/

/-- The declared lengths and generation; `none` when the instance has no state. -/
def readMetadata (W : Wire B) (data : Option B) : Except LoadError (Option BackendWorkflowStateMetadata) :=
  match data with
  | none => .ok none
  | some b =>
    if W.len b = 0 then .ok none
    else match W.metadata.unmarshal b with
      | some md => .ok (some md)
      | none =>
        match W.legacyMetadata b with
        | some md => .ok (some ⟨md.inboxLength, md.historyLength, md.generation, 0, 0, 0⟩)
        | none => .error .malformedMetadata

def checkLengths (md : BackendWorkflowStateMetadata) : Except LoadError Unit :=
  if md.inboxLength > maxStateEntries then .error (.lengthExceeded .inbox md.inboxLength)
  else if md.historyLength > maxStateEntries then .error (.lengthExceeded .history md.historyLength)
  else if md.signatureLength > maxStateEntries then .error (.lengthExceeded .signature md.signatureLength)
  else if md.signingCertificateLength > maxStateEntries then
    .error (.lengthExceeded .sigcert md.signingCertificateLength)
  else if md.externalSigningCertificateLength > maxStateEntries then
    .error (.lengthExceeded .extSigCert md.externalSigningCertificateLength)
  else .ok ()

/-- The first certificate whose stored digest is not its own. -/
def badDigest (W : Wire B) (certs : List ExternalSigningCertificate) : Option Nat :=
  certs.findIdx? fun c => W.certDigest c.certificate != c.digest

def digestIndex (certs : List ExternalSigningCertificate) : List (Blob × Nat) :=
  (certs.mapIdx fun i c => (c.digest, i)).reverse

/-- Inbox and history: a missing row fails the whole load. -/
def loadEvents (W : Wire B) (bulk : Key → StateItem B) (etag : Option ETag) (f : Family) (n : Nat) :
    Except (LoadResult B) (List (HistoryEvent × B)) :=
  match readEntries bulk f W.event.unmarshal (List.range n) with
  | .ok rows => .ok rows
  | .error (.missing i _) => .error ⟨none, some (.transientKeyMismatch (.entry f i) etag)⟩
  | .error (.malformed i) => .error ⟨none, some (.malformedRow (.entry f i))⟩

/-- A state that cannot be verified is still returned, and without an error if it was already
condemned. -/
def condemned (s : State B) (e : LoadError) : LoadResult B :=
  if s.hasTamperMarker then ⟨some s, none⟩ else ⟨some s, some e⟩

def loadSigningCertificates (W : Wire B) (bulk : Key → StateItem B) (n : Nat) (s : State B) :
    Except (LoadResult B) (State B) :=
  match readEntries bulk .sigcert W.signingCertificate.unmarshal (List.range n) with
  | .ok rows => .ok { s with signingCertificates := rows.map (·.1) }
  | .error (.missing i before) =>
    .error (condemned { s with signingCertificates := before.map (·.1) } (.missingSigningRow (.entry .sigcert i)))
  | .error (.malformed i) => .error ⟨none, some (.malformedRow (.entry .sigcert i))⟩

def loadExternalCerts (W : Wire B) (bulk : Key → StateItem B) (n : Nat) (s : State B) :
    Except (LoadResult B) (State B) :=
  match readEntries bulk .extSigCert W.externalSigningCertificate.unmarshal (List.range n) with
  | .ok rows =>
    let certs := rows.map (·.1)
    match badDigest W certs with
    | some i => .error (condemned s (.externalCertDigest i))
    | none => .ok { s with externalSigningCertificates := certs, externalCertDigestIndex := digestIndex certs }
  | .error (.missing i _) => .error (condemned s (.missingSigningRow (.entry .extSigCert i)))
  | .error (.malformed i) => .error ⟨none, some (.malformedRow (.entry .extSigCert i))⟩

def loadSignatures (W : Wire B) (bulk : Key → StateItem B) (n : Nat) (s : State B) :
    Except (LoadResult B) (State B) :=
  match readEntries bulk .signature W.historySignature.unmarshal (List.range n) with
  | .ok rows => .ok { s with signatures := rows.map (·.1), rawSignatures := rows.map (·.2) }
  | .error (.missing i before) =>
    .error (condemned { s with signatures := before.map (·.1), rawSignatures := before.map (·.2) }
      (.missingSigningRow (.entry .signature i)))
  | .error (.malformed i) => .error ⟨none, some (.malformedRow (.entry .signature i))⟩

/-- The custom status in a row; an empty row is no status, and old binaries wrote JSON. -/
def decodeStatus (W : Wire B) (b : B) : Option (Option String) :=
  if W.len b = 0 then some none
  else match W.stringValue.unmarshal b with
    | some v => some (some v)
    | none => (W.legacyString b).map some

def loadCustomStatus (W : Wire B) (item : StateItem B) (s : State B) : Except (LoadResult B) (State B) :=
  let s := { s with customStatusPersisted := item.etag.isSome }
  match item.data with
  | none => .ok s
  | some b =>
    match decodeStatus W b with
    | some v => .ok { s with customStatus := v }
    | none => .error ⟨none, some (.malformedRow .customStatus)⟩

def loadPropagatedHistory (W : Wire B) (item : StateItem B) (s : State B) : Except (LoadResult B) (State B) :=
  let s := { s with propagatedHistoryPersisted := item.etag.isSome }
  match item.data with
  | none => .ok s
  | some b =>
    if W.len b = 0 then .ok s
    else match W.propagatedHistory.unmarshal b with
      | some ph => .ok { s with incomingHistory := some ph }
      | none => .error ⟨none, some (.malformedRow .propagatedHistory)⟩

/-- Whether a read found a row: a version token, or data on a store that keeps none. -/
def StateItem.isPresent (W : Wire B) (item : StateItem B) : Bool :=
  item.etag.isSome || item.data.any fun b => 0 < W.len b

def loadParentNotify (W : Wire B) (item : StateItem B) (s : State B) : State B :=
  if item.isPresent W then { s with parentNotifyPending := true, parentNotifyPersisted := true } else s

def executionStartedOf (history inbox : List HistoryEvent) : Option ExecutionStartedEvent :=
  (history ++ inbox).findSome? HistoryEvent.getExecutionStarted

/-- A row without the parent's stamp, as the first binary that kept the input wrote it, is
adopted for the current creation and written again stamped. -/
def loadCreationInput (W : Wire B) (item : StateItem B) (s : State B) : Except (LoadResult B) (State B) :=
  if item.isPresent W then
    let s := { s with creationInputPersisted := true }
    match item.data.bind W.creationInputRow.unmarshal with
    | some row => .ok { s with creationInput := some row.input, creationInputParent := row.parent }
    | none =>
      match item.data.elim (some "") W.stringValue.unmarshal with
      | none => .error ⟨none, some (.malformedRow .creationInput)⟩
      | some legacy =>
        match (executionStartedOf s.history s.inbox).bind (·.parentInstance) with
        | none => .ok s.clearCreationInput
        | some parent => .ok (s.setCreationInput (some legacy) (some parent))
  else .ok s

/-! ## Signing enforcement -/

/-- The leaf certificate names this app in this namespace: its SPIFFE path is
`/ns/<namespace>/<app-id>`. -/
def verifyCertAppIdentity (H : ChainVerifier B) (certChainDER : Blob) (expectedAppID expectedNamespace : String) : Bool :=
  expectedAppID != "" && expectedNamespace != "" && certChainDER != [] &&
    match H.spiffePath certChainDER with
    | none => false
    | some path =>
      match (path.toList.splitOn '/').map String.ofList with
      | [root, ns, certNamespace, certAppID] =>
        root == "" && ns == "ns" && certNamespace == expectedNamespace && certAppID == expectedAppID
      | _ => false

/-- The signatures end where the history ends, the chain verifies, and every certificate is
this app's. -/
def verifySignatureChain (H : ChainVerifier B) (s : State B) : Bool :=
  (match s.signatures.getLast? with
    | none => true
    | some last => last.startEventIndex + last.eventCount == s.rawHistory.length) &&
  H.verifyChain s.rawSignatures s.signingCertificates s.rawHistory &&
  s.signingCertificates.all fun c => verifyCertAppIdentity H c.certificate s.appID s.nspace

def enforceSigning (H : ChainVerifier B) (opts : Options) (s : State B) : LoadResult B :=
  if s.hasTamperMarker then ⟨some s, none⟩
  else if s.signatures ≠ [] then
    if !opts.signer then ⟨some s, some .noSigner⟩
    else if opts.appID = "" then ⟨some s, some .noAppID⟩
    else if opts.nspace = "" then ⟨some s, some .noNamespace⟩
    else if !verifySignatureChain H s then ⟨some s, some .chainRejected⟩
    else ⟨some s, none⟩
  else if opts.signer ∧ s.history ≠ [] then ⟨some s, some (.unsignedHistory s.history.length)⟩
  else ⟨some s, none⟩

/-! ## The load -/

/-- The numbered rows declared by `md`. -/
def loadFamilies (W : Wire B) (opts : Options) (etag : Option ETag) (md : BackendWorkflowStateMetadata)
    (bulk : Key → StateItem B) : Except (LoadResult B) (State B) := do
  let inbox ← loadEvents W bulk etag .inbox md.inboxLength
  let history ← loadEvents W bulk etag .history md.historyLength
  let s := { newState opts with
    generation := md.generation
    metadataETag := etag
    metadataETagSeen := etag.isSome
    inbox := inbox.map (·.1)
    history := history.map (·.1)
    rawHistory := history.map (·.2) }
  let s ← loadSigningCertificates W bulk md.signingCertificateLength s
  let s ← loadExternalCerts W bulk md.externalSigningCertificateLength s
  loadSignatures W bulk md.signatureLength s

def loadOptional (W : Wire B) (bulk : Key → StateItem B) (s : State B) : Except (LoadResult B) (State B) := do
  let s ← loadCustomStatus W (bulk .customStatus) s
  let s ← loadPropagatedHistory W (bulk .propagatedHistory) s
  loadCreationInput W (bulk .creationInput) (loadParentNotify W (bulk .parentNotify) s)

/-- The rows declared by `md` as a state, before signing is enforced. -/
def loadDeclared (W : Wire B) (opts : Options) (etag : Option ETag) (md : BackendWorkflowStateMetadata)
    (bulk : Key → StateItem B) : Except (LoadResult B) (State B) := do
  let s ← loadFamilies W opts etag md bulk
  loadOptional W bulk s

def loadWorkflowStateOnce (W : Wire B) (H : ChainVerifier B) (opts : Options) (metaItem : StateItem B)
    (bulk : Key → StateItem B) : LoadResult B :=
  match readMetadata W metaItem.data with
  | .error e => ⟨none, some e⟩
  | .ok none => ⟨none, none⟩
  | .ok (some md) =>
    match checkLengths md with
    | .error e => ⟨none, some e⟩
    | .ok () =>
      match loadDeclared W opts metaItem.etag md bulk with
      | .error r => r
      | .ok s => enforceSigning H opts s

end Dapr.Workflow
