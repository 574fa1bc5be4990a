import Mathlib.Data.List.Forall2
import Dapr.Lib.Joined
import Dapr.Workflow.Load
/-!
# What a save leaves and what a load finds

`SaveEffect` describes the rows after a save key by key. `Stored` says that the rows are
exactly those a piece of content declares; `loadDeclared_of_stored` is that a load of such
rows gives the content back.
-/

namespace Dapr.Workflow

open Lib.Rows List

variable {α B M : Type}

/-! ## The rows after a save -/

/-- What the writes of a family did to its rows. -/
structure FamilyEffect (f : Family) (data : Nat → α → B) (items : List α) (added removed : Nat)
    (rows rows' : Rows B) : Prop where
  added_le : added ≤ items.length
  row : ∀ i, rows' (.entry f i) =
    written (fun j => rows (.entry f j)) items.length added removed (addedData data items added) i

/-- What a save does to the rows. -/
structure SaveEffect (W : Wire B) (s : State B) (rows rows' : Rows B) : Prop where
  inbox : FamilyEffect .inbox (fun _ => W.event.marshal) s.persistableInbox
    s.inboxAddedCount s.inboxRemovedCount rows rows'
  history : FamilyEffect .history (s.historyData W) s.history s.historyAddedCount s.historyRemovedCount rows rows'
  sigcert : FamilyEffect .sigcert (fun _ => W.signingCertificate.marshal) s.signingCertificates
    s.signingCertificatesAddedCount s.signingCertificatesRemovedCount rows rows'
  extSigCert : FamilyEffect .extSigCert (fun _ => W.externalSigningCertificate.marshal) s.externalSigningCertificates
    s.externalSigningCertificatesAddedCount s.externalSigningCertificatesRemovedCount rows rows'
  signature : FamilyEffect .signature (fun _ b => b) s.rawSignatures
    s.signaturesAddedCount s.signaturesRemovedCount rows rows'
  customStatus : rows' .customStatus =
    if s.writesCustomStatus then some (W.stringValue.marshal (getValue s.customStatus)) else rows .customStatus
  propagatedHistory : rows' .propagatedHistory =
    if s.incomingHistoryChanged then s.incomingHistory.map W.propagatedHistory.marshal else rows .propagatedHistory
  parentNotify : rows' .parentNotify =
    if s.parentNotifyChanged then
      if s.parentNotifyPending then some W.marker
      else if s.parentNotifyPersisted then none else rows .parentNotify
    else rows .parentNotify
  creationInput : rows' .creationInput =
    if s.creationInputChanged then
      match s.creationInput with
      | some v => some (W.creationInputRow.marshal ⟨s.creationInputParent, v⟩)
      | none => if s.creationInputPersisted then none else rows .creationInput
    else rows .creationInput
  metadata : rows' .metadata = some (W.metadata.marshal s.metadata)

/-! Each optional row is written by operations on its own key only. -/

section Optional
variable (W : Wire B) (s : State B)

theorem customStatusOperations_group :
    ∀ w ∈ (s.customStatusOperations W).map TransactionalOperation.write, w.key.group = .customStatus := by
  unfold State.customStatusOperations
  split <;> simp [Key.group]

theorem incomingHistoryOperations_group :
    ∀ w ∈ (s.incomingHistoryOperations W).map TransactionalOperation.write, w.key.group = .propagatedHistory := by
  unfold State.incomingHistoryOperations
  split
  · cases s.incomingHistory <;> simp [Key.group]
  · simp

theorem parentNotifyOperations_group :
    ∀ w ∈ (s.parentNotifyOperations W).map TransactionalOperation.write, w.key.group = .parentNotify := by
  unfold State.parentNotifyOperations
  repeat' split
  all_goals simp [Key.group]

theorem creationInputOperations_group :
    ∀ w ∈ (s.creationInputOperations W).map TransactionalOperation.write, w.key.group = .creationInput := by
  unfold State.creationInputOperations
  split
  · cases s.creationInput with
    | some v => simp [Key.group]
    | none => by_cases hp : s.creationInputPersisted <;> simp [Key.group]
  · simp

end Optional

variable {W : Wire B} {s : State B} {req : List (TransactionalOperation B)} {f : Family} {data : Nat → α → B}
  {items : List α} {added removed : Nat} {rows rows' : Rows B} {unmarshal : B → Option M} {es : List (M × B)}
  {tags : Key → Option ETag} {status : String}

/-- A request is the writes of the five families, the optional rows and the metadata row. -/
theorem getSaveRequest_ok (h : s.getSaveRequest W = .ok req) : ∃ inbox history sigcerts extSigcerts signatures,
      addStateOperations W .inbox s.persistableInbox s.inboxAddedCount s.inboxRemovedCount = .ok inbox ∧
      s.addHistoryOperations W = .ok history ∧
      addProtoStateOperations W.signingCertificate .sigcert s.signingCertificates
        s.signingCertificatesAddedCount s.signingCertificatesRemovedCount = .ok sigcerts ∧
      addProtoStateOperations W.externalSigningCertificate .extSigCert s.externalSigningCertificates
        s.externalSigningCertificatesAddedCount s.externalSigningCertificatesRemovedCount = .ok extSigcerts ∧
      addRawBytesStateOperations .signature s.rawSignatures s.signaturesAddedCount s.signaturesRemovedCount =
        .ok signatures ∧
      (s.metadataETagSeen = true → s.metadataETag ≠ none) ∧
      req = inbox ++ history ++ sigcerts ++ extSigcerts ++ signatures ++ s.customStatusOperations W
        ++ s.incomingHistoryOperations W ++ s.parentNotifyOperations W ++ s.creationInputOperations W
        ++ [.upsert .metadata (W.metadata.marshal s.metadata) s.metadataETag] := by
  simp only [State.getSaveRequest, bind, Lib.Joined.bind_ok_iff] at h
  obtain ⟨inbox, hi, history, hh, sigcerts, hc, extSigcerts, hx, signatures, hg, h⟩ := h
  refine ⟨inbox, history, sigcerts, extSigcerts, signatures, hi, hh, hc, hx, hg, ?_⟩
  split at h
  · cases h
  · next he =>
    cases h
    exact ⟨fun hseen hnone => he (by simp [hseen, hnone]), rfl⟩

theorem saveEffect (h : s.getSaveRequest W = .ok req) (rows : Rows B) :
    SaveEffect W s rows (applyRequest rows req) := by
  obtain ⟨inbox, history, sigcerts, extSigcerts, signatures, hi, hh, hc, hx, hg, -, rfl⟩ := getSaveRequest_ok h
  let ops : Key → List (TransactionalOperation B)
    | .entry .inbox _ => inbox
    | .entry .history _ => history
    | .entry .sigcert _ => sigcerts
    | .entry .extSigCert _ => extSigcerts
    | .entry .signature _ => signatures
    | .customStatus => s.customStatusOperations W
    | .propagatedHistory => s.incomingHistoryOperations W
    | .parentNotify => s.parentNotifyOperations W
    | .creationInput => s.creationInputOperations W
    | .metadata => [.upsert .metadata (W.metadata.marshal s.metadata) s.metadataETag]
  have hin : ∀ g ∈ Key.groups, ∀ w ∈ (ops g).map TransactionalOperation.write, w.key.group = g := by
    simp only [Key.groups, forall_mem_cons]
    refine ⟨addOperations_group hi, addOperations_group hh, addOperations_group hc, addOperations_group hx,
      addOperations_group hg, customStatusOperations_group W s, incomingHistoryOperations_group W s,
      parentNotifyOperations_group W s, creationInputOperations_group W s, ?_⟩
    simp [ops, Key.group]
  -- every key is decided by its own part of the request
  have hat := applyRequest_parts hin rows
  simp only [Key.groups, flatMap_cons, flatMap_nil, append_nil, ops, ← append_assoc] at hat
  refine ⟨⟨(addOperations_ok hi).1, fun i => (hat _).trans (addOperations_entry hi rows i)⟩,
    ⟨(addOperations_ok hh).1, fun i => (hat _).trans (addOperations_entry hh rows i)⟩,
    ⟨(addOperations_ok hc).1, fun i => (hat _).trans (addOperations_entry hc rows i)⟩,
    ⟨(addOperations_ok hx).1, fun i => (hat _).trans (addOperations_entry hx rows i)⟩,
    ⟨(addOperations_ok hg).1, fun i => (hat _).trans (addOperations_entry hg rows i)⟩,
    (hat _).trans ?_, (hat _).trans ?_, (hat _).trans ?_, (hat _).trans ?_, (hat _).trans ?_⟩
  all_goals simp only [Key.group]
  · unfold State.customStatusOperations
    split <;> simp [applyRequest]
  · unfold State.incomingHistoryOperations
    split
    · cases s.incomingHistory <;> simp [applyRequest]
    · simp [applyRequest]
  · unfold State.parentNotifyOperations
    repeat' split
    all_goals simp [applyRequest]
  · unfold State.creationInputOperations
    split
    · cases s.creationInput with
      | some v => simp [applyRequest]
      | none => by_cases hp : s.creationInputPersisted <;> simp [applyRequest, hp]
    · simp [applyRequest]
  · simp [applyRequest]

theorem addedData_getElem? (data : Nat → α → B) (items : List α) (added j : Nat) :
    (addedData data items added)[j]? = (items[items.length - added + j]?).map (data j) := by
  simp [addedData]

section
variable (h : FamilyEffect f data items added removed rows rows')
include h

theorem FamilyEffect.rows_eq : (fun i => rows' (.entry f i)) =
      written (fun i => rows (.entry f i)) items.length added removed (addedData data items added) := funext h.row

/-- A family whose counters were right holds exactly its list after the writes. -/
theorem FamilyEffect.holds {Enc : α → B → Prop} (ht : Tracks Enc (fun i => rows (.entry f i)) items added removed)
    (henc : ∀ j x, items[items.length - added + j]? = some x → Enc x (data j x)) :
    Holds Enc (fun i => rows' (.entry f i)) items := by
  rw [h.rows_eq]
  refine ht.holds (length_addedData data h.added_le) fun j x v hx hv => ?_
  rw [addedData_getElem?, hx, Option.map_some, Option.some.injEq] at hv
  exact hv ▸ henc j x hx

theorem FamilyEffect.bounded (hb : Bounded (fun i => rows (.entry f i)) items.length removed) :
    Bounded (fun i => rows' (.entry f i)) items.length 0 := by
  rw [h.rows_eq]
  exact hb.written _

/-- A row after the writes was there before or holds an item. -/
theorem FamilyEffect.row_cases {i : Nat} {b : B}
    (hb : rows' (.entry f i) = some b) : rows (.entry f i) = some b ∨ ∃ x ∈ items, ∃ j, data j x = b := by
  rw [h.row i, written] at hb
  split at hb
  · cases hb
  · split at hb
    · rw [addedData_getElem?, Option.map_eq_some_iff] at hb
      obtain ⟨x, hx, rfl⟩ := hb
      exact .inr ⟨x, mem_of_getElem? hx, _, rfl⟩
    · exact .inl hb

end

/-! ## Content and the rows that declare it -/

/-- The part of a state that its rows must give back. -/
structure Content where
  inbox : List HistoryEvent
  history : List HistoryEvent
  signingCertificates : List SigningCertificate
  externalSigningCertificates : List ExternalSigningCertificate
  signatures : List HistorySignature
  generation : Nat
  deriving DecidableEq

variable {c : Content}

def Content.metadata (c : Content) : BackendWorkflowStateMetadata where
  inboxLength := c.inbox.length
  historyLength := c.history.length
  generation := c.generation
  signatureLength := c.signatures.length
  signingCertificateLength := c.signingCertificates.length
  externalSigningCertificateLength := c.externalSigningCertificates.length

def State.content (s : State B) : Content where
  inbox := s.persistableInbox
  history := s.history
  signingCertificates := s.signingCertificates
  externalSigningCertificates := s.externalSigningCertificates
  signatures := s.signatures
  generation := s.generation

/-- The bytes are those of the message. -/
def Decodes (unmarshal : B → Option M) (m : M) (b : B) : Prop := unmarshal b = some m

/-- The inbox rows hold events, and no timer is among them. -/
def InboxRows (W : Wire B) (rows : Rows B) : Prop :=
  ∀ i b, rows (.entry .inbox i) = some b → ∃ e, W.event.unmarshal b = some e ∧ e.isTimerFired = false

/-- The metadata row declares the content, and there are no rows besides. Of the inbox this
says only that no row lies beyond the declared length. -/
structure Declared (W : Wire B) (rows : Rows B) (c : Content) : Prop where
  metadata : readMetadata W (rows .metadata) = .ok (some c.metadata)
  inboxBound : Bounded (fun i => rows (.entry .inbox i)) c.inbox.length 0
  inboxRows : InboxRows W rows
  history : Holds (Decodes W.event.unmarshal) (fun i => rows (.entry .history i)) c.history
  signingCertificates : Holds (Decodes W.signingCertificate.unmarshal) (fun i => rows (.entry .sigcert i))
    c.signingCertificates
  externalSigningCertificates : Holds (Decodes W.externalSigningCertificate.unmarshal)
    (fun i => rows (.entry .extSigCert i)) c.externalSigningCertificates
  signatures : Holds (Decodes W.historySignature.unmarshal) (fun i => rows (.entry .signature i)) c.signatures

/-- The metadata row declares the content, and of every family exactly its rows exist. -/
structure Stored (W : Wire B) (rows : Rows B) (c : Content) : Prop extends Declared W rows c where
  inbox : Holds (Decodes W.event.unmarshal) (fun i => rows (.entry .inbox i)) c.inbox

/-- The optional rows decode, and the custom status they hold is `status`. -/
structure OptionalRows (W : Wire B) (rows : Rows B) (status : String) : Prop where
  noStatus : rows .customStatus = none → status = ""
  customStatus : ∀ b, rows .customStatus = some b → ∃ v, decodeStatus W b = some v ∧ getValue v = status
  propagatedHistory : ∀ b, rows .propagatedHistory = some b →
    W.len b = 0 ∨ (W.propagatedHistory.unmarshal b).isSome
  creationInput : ∀ b, rows .creationInput = some b →
    (W.creationInputRow.unmarshal b).isSome ∨ (W.stringValue.unmarshal b).isSome

/-! ## Reading the rows back -/

theorem readEntries_range {items : List M} {vs : List B} (hd : Forall₂ (Decodes unmarshal) items vs)
    (tags : Key → Option ETag) : ∀ k, (∀ i < items.length, rows (.entry f (k + i)) = vs[i]?) →
      readEntries (readItem rows tags) f unmarshal (range' k items.length) = .ok (items.zip vs) := by
  induction hd with
  | nil => intro k _; rfl
  | @cons m b ms bs hd _ ih =>
    intro k hrow
    have h0 : rows (.entry f k) = some b := by simpa using hrow 0 (by simp)
    have hrest := ih (k + 1) fun i hi => by
      simpa [Nat.add_assoc, Nat.add_comm 1] using hrow (i + 1) (by simpa using hi)
    simp only [length_cons, range'_succ, readEntries, readItem_data, h0]
    rw [show unmarshal b = some m from hd]
    simp [hrest]

/-- The rows that hold a list decode to it. -/
theorem readEntries_of_holds {items : List M} (h : Holds (Decodes unmarshal) (fun i => rows (.entry f i)) items)
    (tags : Key → Option ETag) :
    ∃ es, readEntries (readItem rows tags) f unmarshal (range items.length) = .ok es ∧ es.map (·.1) = items ∧
      Forall₂ (Decodes unmarshal) items (es.map (·.2)) ∧
      ∀ i < items.length, rows (.entry f i) = (es.map (·.2))[i]? := by
  obtain ⟨vs, hd, hrow⟩ := h.values
  have hfst : (items.zip vs).map (·.1) = items := map_fst_zip (Nat.le_of_eq hd.length_eq)
  have hsnd : (items.zip vs).map (·.2) = vs := map_snd_zip (Nat.le_of_eq hd.length_eq.symm)
  refine ⟨items.zip vs, ?_, hfst, by rwa [hsnd], by rwa [hsnd]⟩
  rw [range_eq_range']
  exact readEntries_range hd tags 0 (by simpa using hrow)

theorem readEntries_forall₂ {bulk : Key → StateItem B} {is : List Nat} (h : readEntries bulk f unmarshal is = .ok es) :
    Forall₂ (fun i e => (bulk (.entry f i)).data = some e.2 ∧ unmarshal e.2 = some e.1) is es := by
  induction is generalizing es with
  | nil => cases h; exact .nil
  | cons i is ih =>
    unfold readEntries at h
    cases hb : (bulk (.entry f i)).data with
    | none => rw [hb] at h; cases h
    | some b =>
      cases hm : unmarshal b with
      | none => simp [hb, hm] at h
      | some m =>
        cases hr : readEntries bulk f unmarshal is with
        | error e => simp [hb, hm, hr] at h
        | ok rest =>
          simp only [hb, hm, hr, Except.ok.injEq] at h
          subst h
          exact .cons ⟨hb, hm⟩ (ih hr)

theorem holds_of_readEntries {n : Nat} (h : readEntries (readItem rows tags) f unmarshal (range n) = .ok es)
    (hb : Bounded (fun i => rows (.entry f i)) n 0) :
    es.length = n ∧ Holds (Decodes unmarshal) (fun i => rows (.entry f i)) (es.map (·.1)) := by
  have hall := readEntries_forall₂ h
  have hlen : es.length = n := by simpa using hall.length_eq.symm
  refine ⟨hlen, fun i x hx => ?_, fun i hi => hb i (by simpa [hlen] using hi) (Nat.zero_le i)⟩
  rw [getElem?_map, Option.map_eq_some_iff] at hx
  obtain ⟨e, he, rfl⟩ := hx
  obtain ⟨hi, rfl⟩ := List.getElem?_eq_some_iff.1 he
  obtain ⟨hrow, hdec⟩ := (List.forall₂_iff_get.1 hall).2 i (by simpa [hlen] using hi) hi
  refine ⟨es[i].2, ?_, hdec⟩
  simpa [readItem_data] using hrow

theorem badDigest_eq_none {certs : List ExternalSigningCertificate} :
    badDigest W certs = none ↔ ∀ c ∈ certs, W.certDigest c.certificate = c.digest := by
  simp [badDigest]

/-- No addition or removal is waiting for a save. -/
structure State.NothingPending (s : State B) : Prop where
  inboxAdded : s.inboxAddedCount = 0
  inboxRemoved : s.inboxRemovedCount = 0
  historyAdded : s.historyAddedCount = 0
  historyRemoved : s.historyRemovedCount = 0
  signingCertificatesAdded : s.signingCertificatesAddedCount = 0
  signingCertificatesRemoved : s.signingCertificatesRemovedCount = 0
  externalSigningCertificatesAdded : s.externalSigningCertificatesAddedCount = 0
  externalSigningCertificatesRemoved : s.externalSigningCertificatesRemovedCount = 0
  signaturesAdded : s.signaturesAddedCount = 0
  signaturesRemoved : s.signaturesRemovedCount = 0

/-- A state that has the content of the store. -/
structure Loaded (W : Wire B) (rows : Rows B) (tags : Key → Option ETag) (opts : Options) (etag : Option ETag)
    (c : Content) (status : String) (s : State B) : Prop where
  inbox : s.inbox = c.inbox
  history : s.history = c.history
  signingCertificates : s.signingCertificates = c.signingCertificates
  externalSigningCertificates : s.externalSigningCertificates = c.externalSigningCertificates
  signatures : s.signatures = c.signatures
  generation : s.generation = c.generation
  customStatus : getValue s.customStatus = status
  rawHistory : Forall₂ (Decodes W.event.unmarshal) s.history s.rawHistory
  rawHistory_rows : ∀ i < s.history.length, rows (.entry .history i) = s.rawHistory[i]?
  rawSignatures : Forall₂ (Decodes W.historySignature.unmarshal) s.signatures s.rawSignatures
  rawSignatures_rows : ∀ i < s.signatures.length, rows (.entry .signature i) = s.rawSignatures[i]?
  externalCertDigestIndex : s.externalCertDigestIndex = digestIndex c.externalSigningCertificates
  marshaledNewHistory : s.marshaledNewHistory = []
  pending : s.NothingPending
  customStatusChanged : s.customStatusChanged = false
  incomingHistoryChanged : s.incomingHistoryChanged = false
  parentNotifyChanged : s.parentNotifyChanged = false
  customStatusPersisted : s.customStatusPersisted = (readItem rows tags .customStatus).etag.isSome
  propagatedHistoryPersisted : s.propagatedHistoryPersisted = (readItem rows tags .propagatedHistory).etag.isSome
  parentNotifyPersisted : s.parentNotifyPersisted = (readItem rows tags .parentNotify).isPresent W
  creationInputPersisted : s.creationInputPersisted = (readItem rows tags .creationInput).isPresent W
  metadataETag : s.metadataETag = etag
  metadataETagSeen : s.metadataETagSeen = etag.isSome
  appID : s.appID = opts.appID
  nspace : s.nspace = opts.nspace

theorem loadCustomStatus_ok (h : OptionalRows W rows status) (tags : Key → Option ETag) (s : State B)
    (hs : s.customStatus = none) : ∃ v, getValue v = status ∧ loadCustomStatus W (readItem rows tags .customStatus) s =
      .ok { s with customStatusPersisted := (readItem rows tags .customStatus).etag.isSome, customStatus := v } := by
  unfold loadCustomStatus
  rw [readItem_data]
  cases hr : rows .customStatus with
  | none => exact ⟨none, (h.noStatus hr).symm, by rw [← hs]⟩
  | some b =>
    obtain ⟨v, hv, hst⟩ := h.customStatus b hr
    exact ⟨v, hst, by simp [hv]⟩

theorem loadPropagatedHistory_ok (h : OptionalRows W rows status) (tags : Key → Option ETag) (s : State B) :
    ∃ ph, loadPropagatedHistory W (readItem rows tags .propagatedHistory) s =
      .ok { s with
        propagatedHistoryPersisted := (readItem rows tags .propagatedHistory).etag.isSome
        incomingHistory := ph } := by
  unfold loadPropagatedHistory
  rw [readItem_data]
  cases hr : rows .propagatedHistory with
  | none => exact ⟨s.incomingHistory, rfl⟩
  | some b =>
    rcases h.propagatedHistory b hr with h0 | hp
    · exact ⟨s.incomingHistory, by simp [h0]⟩
    · by_cases h0 : W.len b = 0
      · exact ⟨s.incomingHistory, by simp [h0]⟩
      · obtain ⟨ph, hph⟩ := Option.isSome_iff_exists.1 hp
        exact ⟨some ph, by simp [h0, hph]⟩

theorem loadParentNotify_eq (W : Wire B) (item : StateItem B) (s : State B) (hs : s.parentNotifyPersisted = false) :
    ∃ pending, loadParentNotify W item s =
      { s with parentNotifyPending := pending, parentNotifyPersisted := item.isPresent W } := by
  unfold loadParentNotify
  split
  · rename_i h; exact ⟨true, by rw [h]⟩
  · rename_i h; exact ⟨s.parentNotifyPending, by simp [h, ← hs]⟩

/-- Whatever becomes of the creation input, the rest of the state stays as it is. -/
theorem loadCreationInput_ok (h : OptionalRows W rows status) (tags : Key → Option ETag) (s : State B)
    (hs : s.creationInputPersisted = false) :
    ∃ input parent changed, loadCreationInput W (readItem rows tags .creationInput) s =
      .ok { s with
        creationInputPersisted := (readItem rows tags .creationInput).isPresent W
        creationInput := input
        creationInputParent := parent
        creationInputChanged := changed } := by
  unfold loadCreationInput
  split
  · rename_i hp
    rw [readItem_data, hp]
    cases hr : rows .creationInput with
    | none => simp [StateItem.isPresent, readItem, hr] at hp
    | some b =>
      cases hrow : W.creationInputRow.unmarshal b with
      | some row => exact ⟨some row.input, row.parent, s.creationInputChanged, by simp [hrow]⟩
      | none =>
        have hleg : (W.stringValue.unmarshal b).isSome := by
          rcases h.creationInput b hr with h' | h'
          · simp [hrow] at h'
          · exact h'
        obtain ⟨v, hv⟩ := Option.isSome_iff_exists.1 hleg
        simp only [Option.bind_some, hrow, Option.elim_some, hv]
        cases (executionStartedOf s.history s.inbox).bind (·.parentInstance) with
        | none => exact ⟨none, ⟨"", ""⟩, true, by simp [State.clearCreationInput]⟩
        | some p => exact ⟨some v, creationParentOf (some p), true, by simp [State.setCreationInput, getValue]⟩
  · rename_i hp
    exact ⟨s.creationInput, s.creationInputParent, s.creationInputChanged, by simp [hp, ← hs]⟩

/-- The optional rows change only the optional values. -/
theorem loadOptional_ok (h : OptionalRows W rows status) (tags : Key → Option ETag) (hcs : s.customStatus = none)
    (hpn : s.parentNotifyPersisted = false) (hci : s.creationInputPersisted = false) :
    ∃ v ph pending input parent changed, getValue v = status ∧ loadOptional W (readItem rows tags) s =
      .ok { s with
        customStatusPersisted := (readItem rows tags .customStatus).etag.isSome
        customStatus := v
        propagatedHistoryPersisted := (readItem rows tags .propagatedHistory).etag.isSome
        incomingHistory := ph
        parentNotifyPersisted := (readItem rows tags .parentNotify).isPresent W
        parentNotifyPending := pending
        creationInputPersisted := (readItem rows tags .creationInput).isPresent W
        creationInput := input
        creationInputParent := parent
        creationInputChanged := changed } := by
  let bulk := readItem rows tags
  obtain ⟨v, hv, e1⟩ := loadCustomStatus_ok h tags s hcs
  let s₁ := { s with customStatusPersisted := (bulk .customStatus).etag.isSome, customStatus := v }
  obtain ⟨ph, e2⟩ := loadPropagatedHistory_ok h tags s₁
  let s₂ := { s₁ with
    propagatedHistoryPersisted := (bulk .propagatedHistory).etag.isSome
    incomingHistory := ph }
  obtain ⟨pending, e3⟩ := loadParentNotify_eq W (bulk .parentNotify) s₂ hpn
  obtain ⟨input, parent, changed, e4⟩ := loadCreationInput_ok h tags
    { s₂ with parentNotifyPersisted := (bulk .parentNotify).isPresent W, parentNotifyPending := pending } hci
  refine ⟨v, ph, pending, input, parent, changed, hv, ?_⟩
  dsimp only [bulk, s₁, s₂] at e2 e3 e4
  simp only [loadOptional, e1, e2, e3, e4, bind, Except.bind]

theorem enforceSigning_state (H : ChainVerifier B) (opts : Options) (s : State B) :
    (enforceSigning H opts s).state = some s := by
  unfold enforceSigning
  repeat' split
  all_goals rfl

section

variable (hst : Stored W rows c)
  (hdig : ∀ x ∈ c.externalSigningCertificates, W.certDigest x.certificate = x.digest)
include hst hdig

theorem loadFamilies_ok (tags : Key → Option ETag) (opts : Options) (etag : Option ETag) :
    ∃ rawHistory rawSignatures s,
      Forall₂ (Decodes W.event.unmarshal) c.history rawHistory ∧
      (∀ i < c.history.length, rows (.entry .history i) = rawHistory[i]?) ∧
      Forall₂ (Decodes W.historySignature.unmarshal) c.signatures rawSignatures ∧
      (∀ i < c.signatures.length, rows (.entry .signature i) = rawSignatures[i]?) ∧
      loadFamilies W opts etag c.metadata (readItem rows tags) = .ok s ∧ s = { newState opts with
        generation := c.generation
        metadataETag := etag
        metadataETagSeen := etag.isSome
        inbox := c.inbox
        history := c.history
        rawHistory := rawHistory
        signingCertificates := c.signingCertificates
        externalSigningCertificates := c.externalSigningCertificates
        externalCertDigestIndex := digestIndex c.externalSigningCertificates
        signatures := c.signatures
        rawSignatures := rawSignatures } := by
  obtain ⟨ei, hinbox, hi, -, -⟩ := readEntries_of_holds hst.inbox tags
  obtain ⟨eh, hhist, hh, hraw, hrow⟩ := readEntries_of_holds hst.history tags
  obtain ⟨ec, hcert, hc, -, -⟩ := readEntries_of_holds hst.signingCertificates tags
  obtain ⟨ex, hext, hx, -, -⟩ := readEntries_of_holds hst.externalSigningCertificates tags
  obtain ⟨es, hsig, hs, hsraw, hsrow⟩ := readEntries_of_holds hst.signatures tags
  refine ⟨_, _, _, hraw, hrow, hsraw, hsrow, ?_, rfl⟩
  simp only [loadFamilies, loadEvents, loadSigningCertificates, loadExternalCerts, loadSignatures, Content.metadata,
    hinbox, hhist, hcert, hext, hsig, hi, hh, hc, hx, hs, badDigest_eq_none.2 hdig, bind, Except.bind]

/-- A load of stored rows gives their content. -/
theorem loadDeclared_of_stored (hopt : OptionalRows W rows status) (tags : Key → Option ETag) (opts : Options)
    (etag : Option ETag) : ∃ s, loadDeclared W opts etag c.metadata (readItem rows tags) = .ok s ∧
      Loaded W rows tags opts etag c status s := by
  obtain ⟨rawHistory, rawSignatures, s, hraw, hrow, hsraw, hsrow, hfam, hs⟩ := loadFamilies_ok hst hdig tags opts etag
  simp only [loadDeclared, hfam]
  obtain ⟨v, ph, pending, input, parent, changed, hv, hload⟩ :=
    loadOptional_ok (s := s) hopt tags (hs ▸ rfl) (hs ▸ rfl) (hs ▸ rfl)
  subst hs
  exact ⟨_, hload, rfl, rfl, rfl, rfl, rfl, rfl, hv, hraw, hrow, hsraw, hsrow, rfl, rfl,
    ⟨rfl, rfl, rfl, rfl, rfl, rfl, rfl, rfl, rfl, rfl⟩, rfl, rfl, rfl, rfl, rfl, rfl, rfl, rfl, rfl, rfl, rfl⟩

/-- Within the limits on counts, loading stored rows gives their content; only the rules on
signing can then refuse it. -/
theorem load_of_stored (hopt : OptionalRows W rows status) (hlen : checkLengths c.metadata = .ok ())
    (H : ChainVerifier B) (tags : Key → Option ETag) (opts : Options) :
    ∃ s, Loaded W rows tags opts (readItem rows tags .metadata).etag c status s ∧
      loadWorkflowStateOnce W H opts (readItem rows tags .metadata) (readItem rows tags) = enforceSigning H opts s := by
  obtain ⟨s, hload, hs⟩ := loadDeclared_of_stored hst hdig hopt tags opts (readItem rows tags .metadata).etag
  refine ⟨s, hs, ?_⟩
  simp [loadWorkflowStateOnce, readItem_data, hst.metadata, hlen, hload]

end

/-- If a load of declared rows returns a state, then the rows were stored in full, and only
the rules on signing were left to decide. -/
theorem stored_of_load (hd : Declared W rows c)
    (hdig : ∀ x ∈ c.externalSigningCertificates, W.certDigest x.certificate = x.digest)
    (hopt : OptionalRows W rows status) {H : ChainVerifier B} {opts : Options}
    (h : (loadWorkflowStateOnce W H opts (readItem rows tags .metadata) (readItem rows tags)).state = some s) :
    ∃ inbox, Stored W rows { c with inbox := inbox } ∧
      Loaded W rows tags opts (readItem rows tags .metadata).etag { c with inbox := inbox } status s ∧
      loadWorkflowStateOnce W H opts (readItem rows tags .metadata) (readItem rows tags) = enforceSigning H opts s := by
  have hstate := h
  unfold loadWorkflowStateOnce at h
  simp only [readItem_data, hd.metadata] at h
  cases hlen : checkLengths c.metadata with
  | error e => simp [hlen] at h
  | ok u =>
    -- without its inbox the load returns no state
    cases hin : readEntries (readItem rows tags) .inbox W.event.unmarshal (range c.inbox.length) with
    | error e =>
      have hmiss : loadEvents W (readItem rows tags) (readItem rows tags .metadata).etag .inbox
          c.metadata.inboxLength = .error ⟨none, (match e with
            | .missing i _ => some (.transientKeyMismatch (.entry .inbox i) (readItem rows tags .metadata).etag)
            | .malformed i => some (.malformedRow (.entry .inbox i)))⟩ := by
        cases e <;> simp [loadEvents, Content.metadata, hin]
      simp [hlen, loadDeclared, loadFamilies, hmiss, bind, Except.bind] at h
    | ok es =>
      obtain ⟨hlen', hholds⟩ := holds_of_readEntries hin hd.inboxBound
      have hmd : ({ c with inbox := es.map (·.1) } : Content).metadata = c.metadata := by
        simp [Content.metadata, hlen']
      have hst : Stored W rows { c with inbox := es.map (·.1) } :=
        { hd with
          metadata := by rw [hmd]; exact hd.metadata
          inboxBound := by simpa [hlen'] using hd.inboxBound
          inbox := hholds }
      obtain ⟨s', hs', heq⟩ := load_of_stored hst hdig hopt (by rw [hmd]; exact hlen) H tags opts
      rw [heq, enforceSigning_state, Option.some.injEq] at hstate
      subst hstate
      exact ⟨_, hst, hs', heq⟩

end Dapr.Workflow
