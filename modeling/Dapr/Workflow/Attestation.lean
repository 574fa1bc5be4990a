import Dapr.Workflow.Steps
/-!
# Attestation of inbound completions

On a signing host a completion must carry an attestation: a signed statement of the app that
ran the step, bound to the parent instance, the task id, and the input and output of the
step. `verifyInboxAttestation` checks it against the scheduling that history records. The
cryptography is a parameter, `HistoryVerification`.
-/

namespace Dapr.Workflow

inductive AttestationKind where
  | child
  | activity
  deriving DecidableEq, Repr

inductive TerminalStatus where
  | completed
  | failed
  deriving DecidableEq, Repr

/-- What an attestation signs. -/
structure AttestationPayload where
  canonicalSpecVersion : Nat
  parentInstanceId : String
  parentTaskScheduledId : Int
  terminalStatus : TerminalStatus
  /-- Empty for a child workflow. -/
  activityName : String
  signerCertDigest : Blob
  ioDigest : Blob
  deriving DecidableEq, Repr

/-- What a verified attestation speaks for. -/
structure AttestationClaim where
  attestation : Attestation
  signerCertDER : Blob
  expectedParentInstanceId : String
  expectedParentTaskScheduledId : Int
  /-- Absent for a child workflow. -/
  expectedActivityName : Option String
  claimedInput : Option String
  claimedOutput : Option String
  claimedFailure : Option TaskFailureDetails
  deriving DecidableEq, Repr

/-- The verification functions of the history signing library and of the signer. -/
structure HistoryVerification where
  certDigest : Blob → Blob
  /-- Verify an attestation at a time; the flag says that the trust in the certificate was
  established before. -/
  verifyAttestation : AttestationKind → AttestationClaim → Int → Bool → Except String AttestationPayload
  unmarshalPayload : Blob → Option AttestationPayload
  canonicalSpecVersion : Nat
  /-- Payload, signature, certificate. -/
  verifySignature : Blob → Blob → Blob → Bool
  verifyCertChainOfTrust : Blob → Int → Bool
  /-- Input and canonical output of a step. -/
  ioDigest : Option String → Blob → Blob
  canonicalSuccessOutput : Option String → Blob
  canonicalFailureOutput : Option TaskFailureDetails → Option Blob
  /-- When the leaf of a certificate chain is valid. -/
  leafValidity : Blob → Option (Int × Int)

/-- The verification functions accept only genuine attestations, made under certificates that
are trusted, if the caller vouches for no others. -/
structure HistoryVerification.AcceptsOnlyGenuine (V : HistoryVerification) (Trusted : Blob → Prop)
    (Genuine : AttestationKind → AttestationClaim → Prop) : Prop where
  genuine : ∀ kind claim ts chainVerified payload, V.verifyAttestation kind claim ts chainVerified = .ok payload →
    (chainVerified = true → Trusted claim.signerCertDER) → Genuine kind claim
  trusted : ∀ kind claim ts payload, V.verifyAttestation kind claim ts false = .ok payload →
    Trusted claim.signerCertDER
  digest_injective : Function.Injective V.certDigest

namespace HistoryVerification

/-- The library has accepted an attestation under this certificate without being told to trust it. -/
def Vouched (V : HistoryVerification) (cert : Blob) : Prop :=
  ∃ kind claim ts payload, V.verifyAttestation kind claim ts false = .ok payload ∧ claim.signerCertDER = cert

/-- The library accepts a claim, told to trust its certificate only if it vouched for one of the
same digest before. -/
def Accepts (V : HistoryVerification) (kind : AttestationKind) (claim : AttestationClaim) : Prop :=
  ∃ ts chainVerified payload, V.verifyAttestation kind claim ts chainVerified = .ok payload ∧
    (chainVerified = true → ∃ cert, V.Vouched cert ∧ V.certDigest cert = V.certDigest claim.signerCertDER)

theorem AcceptsOnlyGenuine.of_accepts {V : HistoryVerification} {Trusted : Blob → Prop}
    {Genuine : AttestationKind → AttestationClaim → Prop} (hV : V.AcceptsOnlyGenuine Trusted Genuine)
    {kind : AttestationKind} {claim : AttestationClaim} (h : V.Accepts kind claim) : Genuine kind claim := by
  obtain ⟨ts, chainVerified, payload, hok, hchain⟩ := h
  refine hV.genuine _ _ _ _ _ hok ?_
  intro hc
  obtain ⟨cert, ⟨kind', claim', ts', payload', hok', rfl⟩, hdigest⟩ := hchain hc
  rw [← hV.digest_injective hdigest]
  exact hV.trusted _ _ _ _ hok'

end HistoryVerification

/-! ## The cache of trusted certificates -/

/-- Digests of certificate chains that were found trusted, with the validity of their leaf;
the latest entry first. -/
abbrev CertVerifyCache := List (Blob × Int × Int)

def certChainTrustVerified (cache : CertVerifyCache) (digest : Blob) (eventTS : Int) : Bool :=
  match cache.lookup digest with
  | none => false
  | some (notBefore, notAfter) => notBefore ≤ eventTS ∧ eventTS ≤ notAfter

def cacheCertChainTrust (V : HistoryVerification) (cache : CertVerifyCache) (digest chainDER : Blob) :
    CertVerifyCache :=
  match V.leafValidity chainDER with
  | none => cache
  | some window => (digest, window) :: cache

/-- Every digest in the cache is that of a certificate the library vouched for. -/
def CertVerifyCache.Sound (V : HistoryVerification) (cache : CertVerifyCache) : Prop :=
  ∀ entry ∈ cache, ∃ cert, V.Vouched cert ∧ V.certDigest cert = entry.1

/-! ## Completions and what they claim -/

/-- What history records of the invocation that a completion answers. -/
structure RecordedInvocation where
  /-- The name of the activity; absent for a child workflow. -/
  name : Option String
  input : Option String
  deriving DecidableEq, Repr

def recordedInvocation (kind : AttestationKind) (e : HistoryEvent) : Option RecordedInvocation :=
  match kind with
  | .child => e.getChildWorkflowInstanceCreated.map fun created => ⟨none, created.input⟩
  | .activity => e.getTaskScheduled.map fun scheduled => ⟨some scheduled.name, scheduled.input⟩

/-- A completion or failure of a step, as the verification reads it. -/
structure Completion where
  kind : AttestationKind
  taskID : Int
  /-- How errors call the event. -/
  desc : String
  attestation : Option Attestation
  certDER : Blob
  output : Option String
  failure : Option TaskFailureDetails
  expectedStatus : TerminalStatus
  deriving DecidableEq, Repr

def completionOf (e : HistoryEvent) : Option Completion :=
  match e.eventType with
  | .childWorkflowInstanceCompleted c =>
    some ⟨.child, c.taskScheduledId, "child completion", c.attestation, c.signerCertificate, c.result, none, .completed⟩
  | .childWorkflowInstanceFailed f =>
    some ⟨.child, f.taskScheduledId, "child failure", f.attestation, f.signerCertificate, none, f.failureDetails, .failed⟩
  | .taskCompleted c =>
    some ⟨.activity, c.taskScheduledId, "activity completion", c.attestation, c.signerCertificate, c.result, none,
      .completed⟩
  | .taskFailed f =>
    some ⟨.activity, f.taskScheduledId, "activity failure", f.attestation, f.signerCertificate, none, f.failureDetails,
      .failed⟩
  | _ => none

/-- The stored form of a completion has no certificate: the state's table holds it. -/
def stripSignerCertificate (e : HistoryEvent) : HistoryEvent :=
  match e.eventType with
  | .childWorkflowInstanceCompleted c =>
    { e with eventType := .childWorkflowInstanceCompleted { c with signerCertificate := [] } }
  | .childWorkflowInstanceFailed f =>
    { e with eventType := .childWorkflowInstanceFailed { f with signerCertificate := [] } }
  | .taskCompleted c => { e with eventType := .taskCompleted { c with signerCertificate := [] } }
  | .taskFailed f => { e with eventType := .taskFailed { f with signerCertificate := [] } }
  | _ => e

def Completion.claim (c : Completion) (actorID : String) (att : Attestation) (recorded : RecordedInvocation) :
    AttestationClaim where
  attestation := att
  signerCertDER := c.certDER
  expectedParentInstanceId := actorID
  expectedParentTaskScheduledId := c.taskID
  expectedActivityName := recorded.name
  claimedInput := recorded.input
  claimedOutput := c.output
  claimedFailure := c.failure

/-! ## Verification -/

/-- An error, and whether it says that history has no scheduling for the completion. -/
structure VerifyError where
  unknownTaskScheduledID : Bool
  message : String
  deriving DecidableEq, Repr

def errUnknownTaskScheduledID : String := "completion does not correspond to a task scheduled in signed history"

def AttestationKind.word : AttestationKind → String
  | .child => "child"
  | .activity => "activity"

def canonicalOutput (V : HistoryVerification) (c : Completion) : Option Blob :=
  match c.expectedStatus with
  | .completed => some (V.canonicalSuccessOutput c.output)
  | .failed => V.canonicalFailureOutput c.failure

/-- Whether a completion that failed verification is a straggler of a superseded invocation of
a reused task id: signed, trusted and bound to this instance, task and outcome, but for
another activity, input or output. -/
def isStaleCompletion (V : HistoryVerification) (actorID : String) (now : Int) (c : Completion) (att : Attestation)
    (recorded : RecordedInvocation) (chainVerified : Bool) : Bool :=
  match V.unmarshalPayload att.payload with
  | none => false
  | some payload =>
    if payload.canonicalSpecVersion ≠ V.canonicalSpecVersion ∨ payload.parentInstanceId ≠ actorID ∨
        payload.parentTaskScheduledId ≠ c.taskID ∨ payload.terminalStatus ≠ c.expectedStatus then false
    else if V.certDigest c.certDER ≠ payload.signerCertDigest then false
    else if !V.verifySignature att.payload att.signature c.certDER then false
    else if !chainVerified && !V.verifyCertChainOfTrust c.certDER now then false
    -- only an activity's attestation names what it ran
    else if recorded.name.any fun name => payload.activityName ≠ name then true
    else match canonicalOutput V c with
      | none => false
      | some out => V.ioDigest recorded.input out ≠ payload.ioDigest

/-- Verify one completion against history and put the signer's certificate into the table. -/
def verifyCompletion {B : Type} (V : HistoryVerification) (actorID : String) (now : Int) (cache : CertVerifyCache)
    (s : State B) (c : Completion) (att : Attestation) : Except VerifyError (State B) × CertVerifyCache :=
  let word := c.kind.word
  let id := c.taskID
  let unknown := errUnknownTaskScheduledID
  match (s.findHistoryEventByID c.taskID).bind (recordedInvocation c.kind) with
  | none => (.error ⟨true, s!"{word} completion: {unknown} (task {id})"⟩, cache)
  | some recorded =>
    let certDigest := V.certDigest c.certDER
    let chainVerified := certChainTrustVerified cache certDigest now
    match V.verifyAttestation c.kind (c.claim actorID att recorded) now chainVerified with
    | .error err =>
      if isStaleCompletion V actorID now c att recorded chainVerified then
        (.error ⟨true, s!"{word} completion for task {id} reports a superseded invocation of a reused scheduled id: {unknown}"⟩,
          cache)
      else (.error ⟨false, s!"{word} attestation verification failed for task {id}: {err}"⟩, cache)
    | .ok payload =>
      if payload.terminalStatus ≠ c.expectedStatus then
        (.error ⟨false, s!"{word} attestation terminalStatus does not match enclosing event"⟩, cache)
      else
        let cache := if chainVerified then cache else cacheCertChainTrust V cache certDigest c.certDER
        match s.addExternalCert payload.signerCertDigest c.certDER with
        | none => (.error ⟨false, s!"{word} attestation: failed to absorb signer cert for task {id}"⟩, cache)
        | some (_, s) => (.ok s, cache)

/-- Verify the attestation of an inbound event. Without a signer, and for events that complete
nothing, there is nothing to verify. -/
def verifyInboxAttestation {B : Type} (V : HistoryVerification) (signer : Bool) (actorID : String) (now : Int)
    (cache : CertVerifyCache) (s : State B) (e : HistoryEvent) :
    Except VerifyError (State B × HistoryEvent) × CertVerifyCache :=
  if !signer then (.ok (s, e), cache)
  else match completionOf e with
    | none => (.ok (s, e), cache)
    | some c =>
      let desc := c.desc
      let id := c.taskID
      match c.attestation with
      | none => (.error ⟨false, s!"{desc} missing required attestation for task {id}"⟩, cache)
      | some att =>
        match verifyCompletion V actorID now cache s c att with
        | (.error err, cache) => (.error err, cache)
        | (.ok s, cache) => (.ok (s, stripSignerCertificate e), cache)

/-! ## What a successful verification says -/

/-- The event is a completion that carries an attestation, and the attestation passes for the
scheduling of the step in this history. -/
def Attested (Passes : AttestationKind → AttestationClaim → Prop) (actorID : String) (history : List HistoryEvent)
    (e : HistoryEvent) : Prop :=
  ∃ c att scheduling recorded, completionOf e = some c ∧ c.attestation = some att ∧
    history.find? (fun x => x.eventId = c.taskID) = some scheduling ∧
    recordedInvocation c.kind scheduling = some recorded ∧ Passes c.kind (c.claim actorID att recorded)

variable {P : AttestationKind → AttestationClaim → Prop} {actorID : String} {history : List HistoryEvent}
  {e : HistoryEvent} {B : Type} {digest : Blob}

theorem Attested.imp {Q : AttestationKind → AttestationClaim → Prop} (h : Attested P actorID history e)
    (hPQ : ∀ kind claim, P kind claim → Q kind claim) : Attested Q actorID history e := by
  obtain ⟨c, att, scheduling, recorded, hc, hatt, hfind, hrec, hp⟩ := h
  exact ⟨c, att, scheduling, recorded, hc, hatt, hfind, hrec, hPQ _ _ hp⟩

/-- What a history finds under an id, a longer one finds too. -/
theorem Attested.mono {history' : List HistoryEvent} (hp : history <+: history') (h : Attested P actorID history e) :
    Attested P actorID history' e := by
  obtain ⟨c, att, scheduling, recorded, hc, hatt, hfind, hrec, hP⟩ := h
  obtain ⟨rest, rfl⟩ := hp
  exact ⟨c, att, scheduling, recorded, hc, hatt, by rw [List.find?_append, hfind]; rfl, hrec, hP⟩

/-- A state and the same with more certificates of other apps. -/
structure AbsorbsCert {B : Type} (s s' : State B) : Prop where
  history : s'.history = s.history
  inbox : s'.inbox = s.inbox
  generation : s'.generation = s.generation
  etag : s'.metadataETag = s.metadataETag

theorem AbsorbsCert.refl (s : State B) : AbsorbsCert s s := ⟨rfl, rfl, rfl, rfl⟩

theorem absorbsCert_addExternalCert {s s' : State B} {cert : Blob} {idx : Nat}
    (h : s.addExternalCert digest cert = some (idx, s')) : AbsorbsCert s s' := by
  unfold State.addExternalCert at h
  split at h
  · cases h
  · split at h <;> cases h <;> exact ⟨rfl, rfl, rfl, rfl⟩

section Verified
variable {V : HistoryVerification} {now : Int} {cache cache' : CertVerifyCache} {s s' : State B} {c : Completion}
  {att : Attestation} {e' : HistoryEvent}

/-- The verification of one completion succeeds only if history records the step and the
library accepts the attestation for it. -/
theorem verifyCompletion_ok (h : verifyCompletion V actorID now cache s c att = (.ok s', cache')) :
    ∃ scheduling recorded payload, s.findHistoryEventByID c.taskID = some scheduling ∧
      recordedInvocation c.kind scheduling = some recorded ∧
      V.verifyAttestation c.kind (c.claim actorID att recorded) now
        (certChainTrustVerified cache (V.certDigest c.certDER) now) = .ok payload ∧ AbsorbsCert s s' := by
  unfold verifyCompletion at h
  cases hrec : (s.findHistoryEventByID c.taskID).bind (recordedInvocation c.kind) with
  | none => simp [hrec] at h
  | some recorded =>
    obtain ⟨scheduling, hfind, hinv⟩ := Option.bind_eq_some_iff.1 hrec
    simp only [hrec] at h
    split at h
    · split at h <;> simp at h
    · rename_i payload hok
      split at h
      · simp at h
      · split at h
        · simp at h
        · rename_i idx s₁ hadd
          simp only [Prod.mk.injEq, Except.ok.injEq] at h
          exact ⟨scheduling, recorded, payload, hfind, hinv, hok, h.1 ▸ absorbsCert_addExternalCert hadd⟩

/-- The cache grows only by a certificate that the library accepted without being told to
trust it. -/
theorem cache_of_verifyCompletion {r : Except VerifyError (State B)}
    (h : verifyCompletion V actorID now cache s c att = (r, cache')) :
    cache' = cache ∨ ∃ recorded payload, cache' = cacheCertChainTrust V cache (V.certDigest c.certDER) c.certDER ∧
      V.verifyAttestation c.kind (c.claim actorID att recorded) now false = .ok payload := by
  cases hrec : (s.findHistoryEventByID c.taskID).bind (recordedInvocation c.kind) with
  | none =>
    simp only [verifyCompletion, hrec] at h
    exact .inl (Prod.mk.inj h).2.symm
  | some recorded =>
    simp only [verifyCompletion, hrec] at h
    split at h
    · split at h <;> exact .inl (Prod.mk.inj h).2.symm
    · rename_i payload hok
      split at h
      · exact .inl (Prod.mk.inj h).2.symm
      · have hcache : (if certChainTrustVerified cache (V.certDigest c.certDER) now then cache
            else cacheCertChainTrust V cache (V.certDigest c.certDER) c.certDER) = cache' := by
          split at h <;> exact (Prod.mk.inj h).2
        split at hcache
        · exact .inl hcache.symm
        · rename_i hchain
          rw [Bool.not_eq_true] at hchain
          exact .inr ⟨recorded, payload, hcache.symm, hchain ▸ hok⟩

/-- A successful verification of a completion strips its certificate, and was made by the
library. -/
theorem verifyInboxAttestation_ok (hc : completionOf e = some c)
    (h : verifyInboxAttestation V true actorID now cache s e = (.ok (s', e'), cache')) :
    e' = stripSignerCertificate e ∧ ∃ att, c.attestation = some att ∧
      verifyCompletion V actorID now cache s c att = (.ok s', cache') := by
  simp only [verifyInboxAttestation, Bool.not_true, Bool.false_eq_true, if_false, hc] at h
  split at h
  · simp at h
  · rename_i att hatt
    split at h
    · simp at h
    · rename_i s₁ cache₁ hver
      obtain ⟨⟨rfl, rfl⟩, rfl⟩ := h
      exact ⟨rfl, att, hatt, hver⟩

/-- What the cache trusts was vouched for. -/
theorem CertVerifyCache.Sound.vouched (hs : cache.Sound V) {ts : Int}
    (h : certChainTrustVerified cache digest ts = true) : ∃ cert, V.Vouched cert ∧ V.certDigest cert = digest := by
  unfold certChainTrustVerified at h
  split at h
  · cases h
  · rename_i notBefore notAfter hlook
    obtain ⟨l₁, l₂, rfl, -⟩ := List.lookup_eq_some_iff.1 hlook
    exact hs (digest, notBefore, notAfter) (by simp)

/-- With a sound cache, a verified completion is attested. -/
theorem attested_of_verified (hs : cache.Sound V) (hc : completionOf e = some c)
    (h : verifyInboxAttestation V true actorID now cache s e = (.ok (s', e'), cache')) :
    Attested V.Accepts actorID s.history e := by
  obtain ⟨-, att, hatt, hver⟩ := verifyInboxAttestation_ok hc h
  obtain ⟨scheduling, recorded, payload, hfind, hrec, hok, -⟩ := verifyCompletion_ok hver
  exact ⟨c, att, scheduling, recorded, hc, hatt, hfind, hrec, now, _, payload, hok, hs.vouched⟩

theorem CertVerifyCache.Sound.verified (hs : cache.Sound V) {signer : Bool}
    {r : Except VerifyError (State B × HistoryEvent)}
    (h : verifyInboxAttestation V signer actorID now cache s e = (r, cache')) : cache'.Sound V := by
  have keep : (r, cache').2 = cache → cache'.Sound V := fun heq => by
    have heq : cache' = cache := heq
    exact heq ▸ hs
  unfold verifyInboxAttestation at h
  split at h
  · exact keep (h ▸ rfl)
  · split at h
    · exact keep (h ▸ rfl)
    · rename_i c hc
      split at h
      · exact keep (h ▸ rfl)
      · rename_i att _
        have hver : ∃ r', verifyCompletion V actorID now cache s c att = (r', cache') := by
          split at h
          · rename_i hv
            exact ⟨_, hv.trans (by rw [(Prod.mk.inj h).2])⟩
          · rename_i hv
            exact ⟨_, hv.trans (by rw [(Prod.mk.inj h).2])⟩
        obtain ⟨r', hver⟩ := hver
        rcases cache_of_verifyCompletion hver with heq | ⟨recorded, payload, heq, hok⟩
        · exact keep heq
        · intro entry hentry
          rw [heq, cacheCertChainTrust] at hentry
          split at hentry
          · exact hs entry hentry
          · rcases List.mem_cons.1 hentry with rfl | hold
            · exact ⟨c.certDER, ⟨_, _, _, _, hok, rfl⟩, rfl⟩
            · exact hs entry hold

end Verified

end Dapr.Workflow
