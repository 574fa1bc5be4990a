import Dapr.Lib.Runs
import Dapr.Workflow.Stored
/-!
# Change tracking over whole runs

Between two saves a state goes through any sequence of operations; the counters they
maintain must at every moment say which rows of the store are out of date. `Synced` is that
relation between a state and the rows of its instance. Every operation keeps it, a save
turns it into rows that declare the state's content, and a load starts from it.
-/

namespace Dapr.Workflow

open Lib.Rows

variable {α B : Type}

/-- The operations the orchestrator performs on a state. -/
inductive StateOp (B : Type) where
  | addToInbox (e : HistoryEvent)
  | appendInbox (e : HistoryEvent)
  | clearInbox
  | addToHistory (e : HistoryEvent)
  | applyRuntimeStateChanges (rs : WorkflowRuntimeState)
  | addSigningCertificate (cert : SigningCertificate)
  | addExternalCert (digest certDER : Blob)
  | addSignature (sig : HistorySignature) (raw : B)
  | reset
  | fromWorkflowState (ws : BackendWorkflowState)
  | bumpGeneration
  | setIncomingHistory (ph : Option PropagatedHistory)
  | keepCreationInput (start : ExecutionStartedEvent)
  | clearCreationInput
  | setParentNotifyPending (pending : Bool)
  | setMetadataETag (etag : Option ETag)

namespace StateOp

def run : StateOp B → State B → State B
  | .addToInbox e, s => s.addToInbox e
  | .appendInbox e, s => s.appendInbox e
  | .clearInbox, s => s.clearInbox
  | .addToHistory e, s => s.addToHistory e
  | .applyRuntimeStateChanges rs, s => s.applyRuntimeStateChanges rs
  | .addSigningCertificate cert, s => s.addSigningCertificate cert
  | .addExternalCert digest certDER, s => ((s.addExternalCert digest certDER).map Prod.snd).getD s
  | .addSignature sig raw, s => s.addSignature sig raw
  | .reset, s => s.reset
  | .fromWorkflowState ws, s => s.fromWorkflowState ws
  | .bumpGeneration, s => { s with generation := s.generation + 1 }
  | .setIncomingHistory ph, s => s.setIncomingHistory ph
  | .keepCreationInput start, s => s.keepCreationInputOf start
  | .clearCreationInput, s => s.clearCreationInput
  | .setParentNotifyPending pending, s => s.setParentNotifyPending pending
  | .setMetadataETag etag, s => s.setMetadataETag etag

/-- What callers guarantee: an external certificate comes with its own digest, a signature
with its serialised form, and a rehydrated state has a generation. -/
def Permitted (W : Wire B) : StateOp B → Prop
  | .addExternalCert digest certDER => W.certDigest certDER = digest
  | .addSignature sig raw => W.historySignature.unmarshal raw = some sig
  | .fromWorkflowState ws => 1 ≤ ws.generation
  | _ => True

end StateOp

/-- The counters of `s` say which rows are out of date. Of the inbox only an upper bound is
claimed here, since a turn may put events into it that no counter knows of. -/
structure Synced (W : Wire B) (rows : Rows B) (s : State B) : Prop where
  inboxRows : InboxRows W rows
  inbox : Bounded (fun i => rows (.entry .inbox i)) s.persistableInbox.length s.inboxRemovedCount
  history : Tracks (Decodes W.event.unmarshal) (fun i => rows (.entry .history i)) s.history
    s.historyAddedCount s.historyRemovedCount
  sigcert : Tracks (Decodes W.signingCertificate.unmarshal) (fun i => rows (.entry .sigcert i)) s.signingCertificates
    s.signingCertificatesAddedCount s.signingCertificatesRemovedCount
  extSigCert : Tracks (Decodes W.externalSigningCertificate.unmarshal) (fun i => rows (.entry .extSigCert i))
    s.externalSigningCertificates s.externalSigningCertificatesAddedCount s.externalSigningCertificatesRemovedCount
  signature : Tracks (· = ·) (fun i => rows (.entry .signature i)) s.rawSignatures
    s.signaturesAddedCount s.signaturesRemovedCount
  rawSignatures : List.Forall₂ (Decodes W.historySignature.unmarshal) s.signatures s.rawSignatures
  digests : ∀ c ∈ s.externalSigningCertificates, W.certDigest c.certificate = c.digest
  generation : 1 ≤ s.generation

/-! ## Operations keep the tracking -/

namespace Synced

variable {W : Wire B} {rows : Rows B} {s : State B}

variable (h : Synced W rows s)
include h

theorem appendInbox (e : HistoryEvent) : Synced W rows (s.appendInbox e) := by
  refine { h with inbox := h.inbox.mono ?_ (Nat.le_max_right _ _) }
  rw [State.persistableInbox_appendInbox, List.length_append]
  exact Nat.le_trans (Nat.le_add_right _ _) (Nat.le_max_left _ _)

theorem addToInbox (e : HistoryEvent) : Synced W rows (s.addToInbox e) :=
  { h with inbox := (h.appendInbox e).inbox }

theorem clearInbox : Synced W rows s.clearInbox := by
  refine { h with inbox := h.inbox.mono ?_ ?_ }
  · exact Nat.le_trans (Nat.le_add_left _ _) (Nat.le_max_right _ _)
  · exact Nat.le_trans (Nat.le_add_right _ _) (Nat.le_max_right _ _)

theorem addToHistory (e : HistoryEvent) : Synced W rows (s.addToHistory e) :=
  { h with history := h.history.push e }

theorem dropHistory : Synced W rows s.dropHistory := by
  have hlen : s.signatures.length = s.rawSignatures.length := h.rawSignatures.length_eq
  exact
    { h with
      history := h.history.clear (Nat.le_add_right _ _) (Nat.le_add_left _ _)
      sigcert := h.sigcert.clear (Nat.le_add_right _ _) (Nat.le_add_left _ _)
      extSigCert := h.extSigCert.clear (Nat.le_add_right _ _) (Nat.le_add_left _ _)
      signature := h.signature.clear (Nat.le_add_right _ _) (hlen ▸ Nat.le_add_left _ _)
      rawSignatures := .nil
      digests := by simp [State.dropHistory] }

theorem applyRuntimeStateChanges (rs : WorkflowRuntimeState) : Synced W rows (s.applyRuntimeStateChanges rs) := by
  unfold State.applyRuntimeStateChanges
  split
  · exact { h.dropHistory with history := h.dropHistory.history.pushAll rs.newEvents }
  · exact { h with history := h.history.pushAll rs.newEvents }

theorem addExternalCert {digest certDER : Blob} (hd : W.certDigest certDER = digest) :
    Synced W rows (((s.addExternalCert digest certDER).map Prod.snd).getD s) := by
  unfold State.addExternalCert
  split
  · exact h
  · split
    · exact h
    · exact { h with extSigCert := h.extSigCert.push _, digests := Lib.Runs.forall_mem_concat h.digests hd }

theorem addSignature {sig : HistorySignature} {raw : B}
    (hraw : W.historySignature.unmarshal raw = some sig) : Synced W rows (s.addSignature sig raw) :=
  { h with
    signature := h.signature.push raw
    rawSignatures := List.rel_append h.rawSignatures (.cons hraw .nil) }

theorem reset : Synced W rows s.reset := by
  have hinbox := s.length_persistableInbox_le
  refine { h.dropHistory with inbox := h.inbox.mono ?_ ?_, generation := Nat.le_add_left 1 _ }
  · exact Nat.le_trans (Nat.le_trans hinbox (Nat.le_add_left _ _)) (Nat.le_max_right _ _)
  · exact Nat.le_trans (Nat.le_add_right _ _) (Nat.le_max_right _ _)

theorem fromWorkflowState {ws : BackendWorkflowState} (hg : 1 ≤ ws.generation) :
    Synced W rows (s.fromWorkflowState ws) := by
  have hin : Synced W rows (ws.inbox.foldl State.addToInbox s.reset) :=
    List.foldlRecOn ws.inbox _ h.reset fun t ht e _ => ht.addToInbox e
  have hhist : Synced W rows (ws.history.foldl State.addToHistory (ws.inbox.foldl State.addToInbox s.reset)) :=
    List.foldlRecOn ws.history _ hin fun t ht e _ => ht.addToHistory e
  exact { hhist with generation := hg }

theorem keepCreationInput (start : ExecutionStartedEvent) : Synced W rows (s.keepCreationInputOf start) := by
  unfold State.keepCreationInputOf
  split
  · exact h
  · exact { h with }

theorem clearCreationInput : Synced W rows s.clearCreationInput := by
  unfold State.clearCreationInput
  split
  · exact { h with }
  · exact h

/-- Every operation keeps the tracking. -/
theorem op {o : StateOp B} (ho : o.Permitted W) : Synced W rows (o.run s) := by
  cases o with
  | addToInbox e => exact h.addToInbox e
  | appendInbox e => exact h.appendInbox e
  | clearInbox => exact h.clearInbox
  | addToHistory e => exact h.addToHistory e
  | applyRuntimeStateChanges rs => exact h.applyRuntimeStateChanges rs
  | addSigningCertificate cert => exact { h with sigcert := h.sigcert.push cert }
  | addExternalCert digest certDER => exact h.addExternalCert ho
  | addSignature sig raw => exact h.addSignature ho
  | reset => exact h.reset
  | fromWorkflowState ws => exact h.fromWorkflowState ho
  | bumpGeneration => exact { h with generation := Nat.le_add_left 1 _ }
  | keepCreationInput start => exact h.keepCreationInput start
  | clearCreationInput => exact h.clearCreationInput
  | setIncomingHistory | setParentNotifyPending | setMetadataETag => exact { h with }

end Synced

/-! ## Saves and loads -/

/-- The bytes kept for the events added last, if any, are serialisations of these events. -/
def SignedBytes (W : Wire B) (s : State B) : Prop :=
  ∀ j b, s.marshaledNewHistory[j]? = some b →
    ∃ e, s.history[s.history.length - s.historyAddedCount + j]? = some e ∧ W.event.unmarshal b = some e

theorem historyData_decodes {W : Wire B} {s : State B} (h : SignedBytes W s) {j : Nat} {e : HistoryEvent}
    (he : s.history[s.history.length - s.historyAddedCount + j]? = some e) :
    Decodes W.event.unmarshal e (s.historyData W j e) := by
  unfold State.historyData Decodes
  cases hb : s.marshaledNewHistory[j]? with
  | none => simp
  | some b =>
    obtain ⟨e', he', hd⟩ := h j b hb
    rw [he] at he'
    simpa [he'] using hd

theorem readMetadata_marshal (W : Wire B) {md : BackendWorkflowStateMetadata} (h : 1 ≤ md.generation) :
    readMetadata W (some (W.metadata.marshal md)) = .ok (some md) := by
  have hlen : W.len (W.metadata.marshal md) ≠ 0 := by
    intro h0
    rw [W.len_metadata] at h0
    simp [h0] at h
  simp [readMetadata, hlen]

/-- Rows that are some bytes hold what the bytes decode to. -/
theorem holds_of_bytes {M : Type} {R : M → B → Prop} {rows : Nat → Option B} {ms : List M} {bs : List B}
    (h : Holds (· = ·) rows bs) (hr : List.Forall₂ R ms bs) : Holds R rows ms where
  row i x hx := by
    obtain ⟨hi, rfl⟩ := List.getElem?_eq_some_iff.1 hx
    have hib : i < bs.length := hr.length_eq ▸ hi
    obtain ⟨v, hv, rfl⟩ := h.row i bs[i] (List.getElem?_eq_getElem hib)
    exact ⟨bs[i], hv, List.forall₂_iff_get.1 hr |>.2 i hi hib⟩
  none i hi := h.none i (hr.length_eq ▸ hi)

namespace Synced

variable {W : Wire B} {rows : Rows B} {s : State B} {req : List (TransactionalOperation B)}

/-- A save leaves rows that declare the content of the state. -/
theorem declared (h : Synced W rows s) (hraw : SignedBytes W s) (hreq : s.getSaveRequest W = .ok req) :
    Declared W (applyRequest rows req) s.content := by
  have he := saveEffect hreq rows
  have hsig := he.signature.holds h.signature fun _ _ _ => rfl
  refine ⟨?_, he.inbox.bounded h.inbox, ?_, he.history.holds h.history fun j e => historyData_decodes hraw,
    he.sigcert.holds h.sigcert fun _ c _ => W.signingCertificate.round_trip c,
    he.extSigCert.holds h.extSigCert fun _ c _ => W.externalSigningCertificate.round_trip c,
    holds_of_bytes hsig h.rawSignatures⟩
  · rw [he.metadata]
    exact readMetadata_marshal W h.generation
  · intro i b hb
    rcases he.inbox.row_cases hb with hb | ⟨e, hmem, _, rfl⟩
    · exact h.inboxRows i b hb
    · exact ⟨e, W.event.round_trip e, by simpa using (List.mem_filter.1 hmem).2⟩

/-- After a save nothing is out of date. -/
theorem save (h : Synced W rows s) (hraw : SignedBytes W s) (hreq : s.getSaveRequest W = .ok req) :
    Synced W (applyRequest rows req) s.resetChangeTracking := by
  have hd := h.declared hraw hreq
  exact
    { inboxRows := hd.inboxRows
      inbox := hd.inboxBound
      history := hd.history.tracks
      sigcert := hd.signingCertificates.tracks
      extSigCert := hd.externalSigningCertificates.tracks
      signature := ((saveEffect hreq rows).signature.holds h.signature fun _ _ _ => rfl).tracks
      rawSignatures := h.rawSignatures
      digests := h.digests
      generation := h.generation }

end Synced

/-- What the store must hold for a load to find a usable state. -/
structure Content.Usable (W : Wire B) (c : Content) : Prop where
  digests : ∀ x ∈ c.externalSigningCertificates, W.certDigest x.certificate = x.digest
  generation : 1 ≤ c.generation

theorem Synced.usable {W : Wire B} {rows : Rows B} {s : State B} (h : Synced W rows s) : s.content.Usable W :=
  ⟨h.digests, h.generation⟩

section Load
variable {W : Wire B} {rows : Rows B} {c : Content} {status : String} {opts : Options} {etag : Option ETag}
  {tags : Key → Option ETag} {s : State B}

/-- A stored inbox has no timers. -/
theorem Stored.noTimers (hst : Stored W rows c) : ∀ e ∈ c.inbox, e.isTimerFired = false := by
  intro e he
  obtain ⟨i, hi⟩ := List.getElem?_of_mem he
  obtain ⟨b, hb, hd⟩ := hst.inbox.row i e hi
  obtain ⟨e', hd', ht⟩ := hst.inboxRows i b hb
  rw [Decodes, hd', Option.some.injEq] at hd
  exact hd ▸ ht

theorem Loaded.persistableInbox (h : Loaded W rows tags opts etag c status s) (hst : Stored W rows c) :
    s.persistableInbox = c.inbox := by
  rw [State.persistableInbox, h.inbox, List.filter_eq_self]
  intro e he
  simp [hst.noTimers e he]

theorem Loaded.content (h : Loaded W rows tags opts etag c status s) (hst : Stored W rows c) : s.content = c := by
  unfold State.content
  rw [h.persistableInbox hst, h.history, h.signingCertificates, h.externalSigningCertificates, h.signatures,
    h.generation]

theorem Loaded.synced (h : Loaded W rows tags opts etag c status s) (hst : Stored W rows c) (hu : c.Usable W) :
    Synced W rows s := by
  have hsig : Holds (· = ·) (fun i => rows (.entry .signature i)) s.rawSignatures := by
    refine ⟨fun i b hb => ⟨b, ?_, rfl⟩, fun i hi => hst.signatures.none i ?_⟩
    · have hi : i < s.signatures.length := h.rawSignatures.length_eq ▸ (List.getElem?_eq_some_iff.1 hb).1
      rw [← hb]
      exact h.rawSignatures_rows i hi
    · rw [← h.signatures, h.rawSignatures.length_eq]
      exact hi
  refine ⟨hst.inboxRows, ?_, ?_, ?_, ?_, ?_, h.rawSignatures, ?_, h.generation ▸ hu.generation⟩
  · rw [h.persistableInbox hst, h.pending.inboxRemoved]
    exact hst.inboxBound
  · rw [h.history, h.pending.historyAdded, h.pending.historyRemoved]
    exact hst.history.tracks
  · rw [h.signingCertificates, h.pending.signingCertificatesAdded, h.pending.signingCertificatesRemoved]
    exact hst.signingCertificates.tracks
  · rw [h.externalSigningCertificates, h.pending.externalSigningCertificatesAdded,
      h.pending.externalSigningCertificatesRemoved]
    exact hst.externalSigningCertificates.tracks
  · rw [h.pending.signaturesAdded, h.pending.signaturesRemoved]
    exact hsig.tracks
  · rw [h.externalSigningCertificates]
    exact hu.digests

end Load

end Dapr.Workflow
