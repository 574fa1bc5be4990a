import Dapr.Workflow.Instance
/-!
# Signing the history

A host with a signer signs the events added since the last save, as one batch, right before
it saves them. The batches follow each other in the history and each signature is chained to
the one before it. The signing library is a parameter: `HistorySigning` are its functions,
`HistorySigning.Correct` is that it signs and verifies what it is given.
-/

namespace Dapr.Workflow

open Lib.Rows Lib.Runs List

variable {B : Type}

structure SignOptions (B : Type) where
  rawEvents : List B
  startEventIndex : Nat
  previousSignatureRaw : Option B
  existingCerts : List SigningCertificate

structure SignResult (B : Type) where
  signature : HistorySignature
  rawSignature : B
  newCert : Option SigningCertificate

/-- The signing library with a signer in it. -/
structure HistorySigning (B : Type) extends ChainVerifier B where
  marshalEvent : HistoryEvent → Option B
  sign : SignOptions B → Option (SignResult B)
  /-- The bytes of a signature are one made under the certificate, over the events, and
  chained to the signature before it. -/
  Genuine : SigningCertificate → Option B → List B → B → Prop

/-- The ranges of the signatures follow each other from `i` up to `n`. -/
def Covers : Nat → List HistorySignature → Nat → Prop
  | i, [], n => i = n
  | i, sig :: sigs, n => sig.startEventIndex = i ∧ Covers (i + sig.eventCount) sigs n

def HistorySignature.events (sig : HistorySignature) (raw : List B) : List B :=
  (raw.drop sig.startEventIndex).take sig.eventCount

/-- Every signature is genuine under the certificate it names, and is chained to the one
before it. -/
def SignedChain (S : HistorySigning B) (certs : List SigningCertificate) (raw : List B) :
    Option B → List HistorySignature → List B → Prop
  | _, [], [] => True
  | prev, sig :: sigs, b :: bs =>
    (∃ cert, certs[sig.certificateIndex]? = some cert ∧ S.Genuine cert prev (sig.events raw) b) ∧
      SignedChain S certs raw (some b) sigs bs
  | _, _, _ => False

/-- The library signs and verifies its inputs correctly, with a certificate of this app. -/
structure HistorySigning.Correct (S : HistorySigning B) (W : Wire B) (opts : Options) : Prop where
  marshalEvent : ∀ e b, S.marshalEvent e = some b → W.event.unmarshal b = some e
  rawSignature : ∀ o r, S.sign o = some r → W.historySignature.unmarshal r.rawSignature = some r.signature
  range : ∀ o r, S.sign o = some r →
    r.signature.startEventIndex = o.startEventIndex ∧ r.signature.eventCount = o.rawEvents.length
  genuine : ∀ o r, S.sign o = some r → ∃ cert,
    (o.existingCerts ++ r.newCert.toList)[r.signature.certificateIndex]? = some cert ∧
      S.Genuine cert o.previousSignatureRaw o.rawEvents r.rawSignature
  identity : ∀ o r, S.sign o = some r → ∀ c ∈ r.newCert,
    verifyCertAppIdentity S.toChainVerifier c.certificate opts.appID opts.nspace = true
  verifyChain : ∀ raws certs events, S.verifyChain raws certs events = true ↔
    ∃ sigs n, Forall₂ (Decodes W.historySignature.unmarshal) sigs raws ∧ n ≤ events.length ∧
      Covers 0 sigs n ∧ SignedChain S certs events none sigs raws

/-! ## The operations -/

inductive SignError where
  | countExceedsHistory
  | partialHistory
  | marshal
  | sign
  deriving DecidableEq, Repr

namespace State

def addNewCert (s : State B) : Option SigningCertificate → State B
  | none => s
  | some cert => s.addSigningCertificate cert

def signNewEvents (S : HistorySigning B) (signer : Bool) (s : State B) : Except SignError (State B) :=
  if !signer || s.historyAddedCount = 0 then .ok s
  else if s.history.length < s.historyAddedCount then .error .countExceedsHistory
  else
    let startIndex := s.history.length - s.historyAddedCount
    -- the first signature of a chain has to cover the whole history
    if s.rawSignatures = [] ∧ startIndex ≠ 0 then .error .partialHistory
    else match (s.history.drop startIndex).mapM S.marshalEvent with
      | none => .error .marshal
      | some rawNewEvents =>
        match S.sign ⟨rawNewEvents, startIndex, s.rawSignatures.getLast?, s.signingCertificates⟩ with
        | none => .error .sign
        | some r =>
          .ok (((s.setMarshaledNewHistory rawNewEvents).addNewCert r.newCert).addSignature r.signature r.rawSignature)

end State

inductive SignAndSaveError where
  | sign (e : SignError)
  | save (e : SaveError)
  deriving DecidableEq, Repr

def Sys.signAndSaveState (S : HistorySigning B) (W : Wire B) (opts : Options) (y : Sys B) :
    Except SignAndSaveError (Sys B) :=
  match y.state.signNewEvents S opts.signer with
  | .error e => .error (.sign e)
  | .ok s => (({ y with state := s } : Sys B).save W s.marshaledNewHistory).mapError .save

/-- The operations other than those signing itself performs. -/
def StateOp.Unsigned : StateOp B → Prop
  | .addSigningCertificate _ => False
  | .addSignature _ _ => False
  | _ => True

/-- The steps of an instance on a host that signs. A failed save drops the state in memory,
so the run goes on with a load; an instance marked as tampered with is not carried on. -/
inductive SigningStep (S : HistorySigning B) (W : Wire B) (opts : Options) : Sys B → Sys B → Prop where
  | op {y : Sys B} (o : StateOp B) (ho : o.Permitted W) (hu : o.Unsigned) : SigningStep S W opts y (y.op o)
  | save {y y' : Sys B} (h : y.signAndSaveState S W opts = .ok y') : SigningStep S W opts y y'
  | load {y : Sys B} {s : State B} (tags : Key → Option ETag)
      (h : y.load W S.toChainVerifier opts tags = ⟨some s, none⟩) (ht : s.hasTamperMarker = false) :
      SigningStep S W opts y { y with state := s, uncounted := false }

/-- A run starts with a new instance, or with one loaded from rows in good order; in these no
certificate is kept without a signature that uses it. -/
inductive SigningStart (S : HistorySigning B) (W : Wire B) (opts : Options) : Sys B → Prop where
  | new : SigningStart S W opts ⟨newState opts, fun _ => none, "", false⟩
  | loaded {y : Sys B} {s : State B} {c : Content} (tags : Key → Option ETag) (hst : Stored W y.rows c)
      (hu : c.Usable W) (hcert : c.signatures = [] → c.signingCertificates = []) (hopt : OptionalRows W y.rows y.status)
      (h : y.load W S.toChainVerifier opts tags = ⟨some s, none⟩) (ht : s.hasTamperMarker = false) :
      SigningStart S W opts { y with state := s, uncounted := false }

/-- The systems a run on a host that signs can reach. -/
def SigningReached (S : HistorySigning B) (W : Wire B) (opts : Options) (y : Sys B) : Prop :=
  Reachable (SigningStart S W opts) (SigningStep S W opts) y

/-! ## Chains grow at their end -/

variable {i n : Nat} {sigs : List HistorySignature} {sig : HistorySignature} {bs raw : List B} {prev : Option B}
  {M : Type} {tags : Key → Option ETag} {etag : Option ETag} {c : Content} {status : String} {s s' : State B}
  {req : List (TransactionalOperation B)} {rows : Nat → Option B}

theorem Covers.le (h : Covers i sigs n) : i ≤ n := by
  induction sigs generalizing i with
  | nil => exact Nat.le_of_eq h
  | cons sig sigs ih => exact Nat.le_trans (Nat.le_add_right _ _) (ih h.2)

theorem Covers.end_le (h : Covers i sigs n) : ∀ sig ∈ sigs, sig.startEventIndex + sig.eventCount ≤ n := by
  induction sigs generalizing i with
  | nil => simp
  | cons sig sigs ih =>
    rintro x (_ | ⟨_, hx⟩)
    · rw [h.1]
      exact h.2.le
    · exact ih h.2 x hx

theorem Covers.last {last : HistorySignature} (h : Covers i sigs n) (hl : sigs.getLast? = some last) :
    last.startEventIndex + last.eventCount = n := by
  induction sigs generalizing i with
  | nil => simp at hl
  | cons sig sigs ih =>
    cases sigs with
    | nil =>
      rw [getLast?_singleton, Option.some.injEq] at hl
      subst hl
      rw [h.1]
      exact h.2
    | cons sig' sigs => exact ih h.2 (by simpa using hl)

theorem Covers.snoc (h : Covers i sigs n) (hs : sig.startEventIndex = n) :
    Covers i (sigs ++ [sig]) (n + sig.eventCount) := by
  induction sigs generalizing i with
  | nil =>
    obtain rfl : i = n := h
    exact ⟨hs, rfl⟩
  | cons x sigs ih => exact ⟨h.1, ih h.2⟩

theorem HistorySignature.events_append (h : sig.startEventIndex + sig.eventCount ≤ raw.length) (more : List B) :
    sig.events (raw ++ more) = sig.events raw := by
  unfold HistorySignature.events
  rw [drop_append_of_le_length (by omega), take_append_of_le_length (by rw [length_drop]; omega)]

section Chain
variable {S : HistorySigning B} {certs : List SigningCertificate}

variable (h : SignedChain S certs raw prev sigs bs)
include h

/-- More certificates and more events leave a chain as it is. -/
theorem SignedChain.extend (hle : ∀ sig ∈ sigs, sig.startEventIndex + sig.eventCount ≤ raw.length)
    (certs' : List SigningCertificate)
    (more : List B) : SignedChain S (certs ++ certs') (raw ++ more) prev sigs bs := by
  fun_induction SignedChain S certs raw prev sigs bs with
  | case1 => trivial
  | case2 prev sig sigs b bs ih =>
    obtain ⟨⟨cert, hc, hg⟩, hrest⟩ := h
    refine ⟨⟨cert, ?_, ?_⟩, ih hrest fun x hx => hle x (mem_cons_of_mem _ hx)⟩
    · rw [getElem?_append_left (List.getElem?_eq_some_iff.1 hc).1, hc]
    · rwa [HistorySignature.events_append (hle sig mem_cons_self)]
  | case3 => exact h.elim

theorem SignedChain.snoc {b : B} {cert : SigningCertificate} (hc : certs[sig.certificateIndex]? = some cert)
    (hg : S.Genuine cert (bs.getLast?.or prev) (sig.events raw) b) :
    SignedChain S certs raw prev (sigs ++ [sig]) (bs ++ [b]) := by
  fun_induction SignedChain S certs raw prev sigs bs with
  | case1 => exact ⟨⟨cert, hc, hg⟩, trivial⟩
  | case2 prev sig' sigs b' bs ih =>
    refine ⟨h.1, ih h.2 ?_⟩
    cases bs with
    | nil => exact hg
    | cons b'' bs =>
      obtain ⟨x, hx⟩ : ∃ x, (b'' :: bs).getLast? = some x := ⟨_, getLast?_eq_some_getLast (by simp)⟩
      rw [getLast?_cons_cons, hx] at hg
      rwa [hx]
  | case3 => exact h.elim

theorem SignedChain.length_eq : sigs.length = bs.length := by
  fun_induction SignedChain S certs raw prev sigs bs with
  | case1 => rfl
  | case2 prev sig sigs b bs ih => rw [length_cons, length_cons, ih h.2]
  | case3 => exact h.elim

theorem SignedChain.certificate : ∀ sig ∈ sigs, ∃ cert, certs[sig.certificateIndex]? = some cert := by
  fun_induction SignedChain S certs raw prev sigs bs with
  | case1 => simp
  | case2 prev sig sigs b bs ih => exact forall_mem_cons.2 ⟨⟨_, h.1.choose_spec.1⟩, ih h.2⟩
  | case3 => exact h.elim

end Chain

/-! ## What every run on a host that signs keeps -/

/-- The signatures of `s` cover the part of its history that is in the store, byte by byte. -/
structure SignedRows (S : HistorySigning B) (rows : Rows B) (s : State B) (raw : List B) : Prop where
  length : raw.length = s.history.length - s.historyAddedCount
  rows : ∀ i < raw.length, rows (.entry .history i) = raw[i]?
  covers : Covers 0 s.signatures raw.length
  chain : SignedChain S s.signingCertificates raw none s.signatures s.rawSignatures

/-- The certificates are of this app, and are used. -/
structure OwnCerts (S : HistorySigning B) (opts : Options) (s : State B) : Prop where
  appID : s.appID = opts.appID
  nspace : s.nspace = opts.nspace
  noStray : s.signatures = [] → s.signingCertificates = []
  identity : ∀ c ∈ s.signingCertificates,
    verifyCertAppIdentity S.toChainVerifier c.certificate opts.appID opts.nspace = true

/-- Nothing is marshaled for the next signature, and what is stored is signed. -/
structure Signed (S : HistorySigning B) (opts : Options) (rows : Rows B) (s : State B) : Prop
    extends OwnCerts S opts s where
  marshaled : s.marshaledNewHistory = []
  signed : ∃ raw, SignedRows S rows s raw

section Operations
variable {S : HistorySigning B} {opts : Options} {rows : Rows B}

/-- Nothing is signed and nothing of the history is in the store to be signed. -/
theorem SignedRows.nil (hh : s.history.length ≤ s.historyAddedCount) (hs : s.signatures = [])
    (hr : s.rawSignatures = []) : SignedRows S rows s [] where
  length := by simp only [length_nil]; omega
  rows i hi := by cases hi
  covers := by rw [hs]; rfl
  chain := by rw [hs, hr]; trivial

theorem SignedRows.addAll (h : SignedRows S rows s raw) (es : List HistoryEvent) :
    SignedRows S rows { s with history := s.history ++ es, historyAddedCount := s.historyAddedCount + es.length } raw :=
  { h with length := by simp only [length_append, h.length]; omega }

variable (h : Signed S opts rows s)
include h

theorem Signed.addToInbox (e : HistoryEvent) : Signed S opts rows (s.addToInbox e) :=
  { h with signed := h.signed.imp fun _ hr => { hr with } }

theorem Signed.addToHistory (e : HistoryEvent) : Signed S opts rows (s.addToHistory e) :=
  { h with signed := h.signed.imp fun _ hr => hr.addAll [e] }

theorem Signed.dropHistory : Signed S opts rows s.dropHistory :=
  { h with noStray := fun _ => rfl, identity := by simp [State.dropHistory], signed := ⟨[], .nil (Nat.le_refl _) rfl rfl⟩ }

theorem Signed.reset : Signed S opts rows s.reset :=
  { h with noStray := fun _ => rfl, identity := by simp [State.reset], signed := ⟨[], .nil (Nat.le_refl _) rfl rfl⟩ }

theorem Signed.applyRuntimeStateChanges (rs : WorkflowRuntimeState) :
    Signed S opts rows (s.applyRuntimeStateChanges rs) := by
  unfold State.applyRuntimeStateChanges
  split
  · exact { h.dropHistory with signed := h.dropHistory.signed.imp fun _ hr => { hr.addAll rs.newEvents with } }
  · exact { h with signed := h.signed.imp fun _ hr => { hr.addAll rs.newEvents with } }

theorem Signed.fromWorkflowState (ws : BackendWorkflowState) : Signed S opts rows (s.fromWorkflowState ws) := by
  have hin : Signed S opts rows (ws.inbox.foldl State.addToInbox s.reset) :=
    foldlRecOn ws.inbox _ h.reset fun t ht e _ => ht.addToInbox e
  have hhist : Signed S opts rows (ws.history.foldl State.addToHistory (ws.inbox.foldl State.addToInbox s.reset)) :=
    foldlRecOn ws.history _ hin fun t ht e _ => ht.addToHistory e
  exact { hhist with signed := hhist.signed.imp fun _ hr => { hr with } }

/-- Every operation other than those of signing keeps what is signed. -/
theorem Signed.op {o : StateOp B} (hu : o.Unsigned) : Signed S opts rows (o.run s) := by
  -- most operations touch neither the history nor what signs it
  have hsame : ∃ raw, SignedRows S rows s raw := h.signed
  cases o with
  | addToInbox e => exact h.addToInbox e
  | addToHistory e => exact h.addToHistory e
  | applyRuntimeStateChanges rs => exact h.applyRuntimeStateChanges rs
  | reset => exact h.reset
  | fromWorkflowState ws => exact h.fromWorkflowState ws
  | addSigningCertificate | addSignature => exact hu.elim
  | addExternalCert digest certDER =>
    simp only [StateOp.run, State.addExternalCert]
    repeat' split
    · exact h
    · exact h
    · exact { h with signed := hsame.imp fun _ hr => { hr with } }
  | keepCreationInput start =>
    simp only [StateOp.run, State.keepCreationInputOf]
    split
    · exact h
    · exact { h with signed := hsame.imp fun _ hr => { hr with } }
  | clearCreationInput =>
    simp only [StateOp.run, State.clearCreationInput]
    split
    · exact { h with signed := hsame.imp fun _ hr => { hr with } }
    · exact h
  | _ => exact { h with signed := hsame.imp fun _ hr => { hr with } }

end Operations

/-! ## Loads and saves -/

section LoadSave
variable {S : HistorySigning B} {W : Wire B} {opts : Options} {rows : Rows B}

/-- What a load on a host that signs accepts. -/
theorem enforceSigning_accepts (hsig : opts.signer = true) (ht : s.hasTamperMarker = false)
    (h : (enforceSigning S.toChainVerifier opts s).err = none) :
    (s.signatures = [] ∧ s.history = []) ∨ (s.signatures ≠ [] ∧ verifySignatureChain S.toChainVerifier s = true) := by
  unfold enforceSigning at h
  rw [if_neg (by simp [ht])] at h
  by_cases hs : s.signatures = []
  · by_cases hh : s.history = []
    · exact .inl ⟨hs, hh⟩
    · simp [hs, hh, hsig] at h
  · cases hv : verifySignatureChain S.toChainVerifier s with
    | true => exact .inr ⟨hs, rfl⟩
    | false =>
      repeat' split at h
      all_goals simp_all

/-- What a load on a host that signs has to find to accept the rows. -/
theorem enforceSigning_of_verified (hsig : opts.signer = true) (h0 : s.signatures = [] → s.history = [])
    (hid : s.signatures ≠ [] → opts.appID ≠ "" ∧ opts.nspace ≠ "" ∧ verifySignatureChain S.toChainVerifier s = true) :
    enforceSigning S.toChainVerifier opts s = ⟨some s, none⟩ := by
  unfold enforceSigning
  split
  · rfl
  · by_cases hs : s.signatures = []
    · simp [hs, h0 hs]
    · obtain ⟨ha, hn, hv⟩ := hid hs
      simp [hs, hsig, ha, hn, hv]

theorem verifySignatureChain_iff : verifySignatureChain S.toChainVerifier s = true ↔
    (∀ last, s.signatures.getLast? = some last → last.startEventIndex + last.eventCount = s.rawHistory.length) ∧
    S.verifyChain s.rawSignatures s.signingCertificates s.rawHistory = true ∧
    ∀ c ∈ s.signingCertificates, verifyCertAppIdentity S.toChainVerifier c.certificate s.appID s.nspace = true := by
  unfold verifySignatureChain
  rw [Bool.and_eq_true, Bool.and_eq_true, all_eq_true, and_assoc]
  refine and_congr_left fun _ => ?_
  cases s.signatures.getLast? <;> simp

/-- The signatures a chain of bytes decodes to are determined by the bytes. -/
theorem forall₂_decodes_unique {unmarshal : B → Option M} {ms ms' : List M}
    (h : Forall₂ (Decodes unmarshal) ms bs) (h' : Forall₂ (Decodes unmarshal) ms' bs) : ms = ms' := by
  induction h generalizing ms' with
  | nil => cases h'; rfl
  | cons hd _ ih =>
    cases h' with
    | cons hd' htl' =>
      rw [ih htl', Option.some.inj (hd.symm.trans hd')]

theorem Signed.load (hS : S.Correct W opts) (hsig : opts.signer = true) (hl : Loaded W rows tags opts etag c status s)
    (hcert : c.signatures = [] → c.signingCertificates = []) (ht : s.hasTamperMarker = false)
    (h : (enforceSigning S.toChainVerifier opts s).err = none) : Signed S opts rows s := by
  have hlen : s.history.length = s.rawHistory.length := hl.rawHistory.length_eq
  have hstray : s.signatures = [] → s.signingCertificates = [] := by
    rwa [hl.signatures, hl.signingCertificates]
  rcases enforceSigning_accepts hsig ht h with ⟨hs, hh⟩ | ⟨hs, hv⟩
  · have hraw : s.rawSignatures = [] := List.forall₂_nil_left_iff.1 (hs ▸ hl.rawSignatures)
    exact ⟨⟨hl.appID, hl.nspace, hstray, by simp [hstray hs]⟩, hl.marshaledNewHistory, [], .nil (by simp [hh]) hs hraw⟩
  · obtain ⟨hlast, hchain, hid⟩ := verifySignatureChain_iff.1 hv
    obtain ⟨sigs, n, hdec, hn, hcov, hsc⟩ := (hS.verifyChain _ _ _).1 hchain
    obtain rfl := forall₂_decodes_unique hl.rawSignatures hdec
    obtain ⟨last, hlast'⟩ : ∃ last, s.signatures.getLast? = some last := ⟨_, getLast?_eq_some_getLast hs⟩
    have hnlen : n = s.rawHistory.length := by rw [← hcov.last hlast', hlast last hlast']
    subst hnlen
    rw [hl.appID, hl.nspace] at hid
    exact ⟨⟨hl.appID, hl.nspace, hstray, hid⟩, hl.marshaledNewHistory, s.rawHistory,
      by rw [hl.pending.historyAdded, hlen, Nat.sub_zero], fun i hi => hl.rawHistory_rows i (hlen ▸ hi), hcov, hsc⟩

theorem forall₂_of_mapM {α β : Type} {f : α → Option β} {xs : List α} {ys : List β} (h : xs.mapM f = some ys) :
    Forall₂ (fun x y => f x = some y) xs ys := by
  induction xs generalizing ys with
  | nil =>
    cases h
    exact .nil
  | cons x xs ih =>
    simp only [mapM_cons, Option.bind_eq_bind, Option.bind_eq_some_iff, Option.pure_def, Option.some.injEq] at h
    obtain ⟨y, hy, ys, hys, rfl⟩ := h
    exact .cons hy (ih hys)

/-- What signing did: nothing if no event is new, and else one more signature, and possibly a
certificate, for the events that are. -/
theorem signNewEvents_ok (h : s.signNewEvents S true = .ok s') : (s.historyAddedCount = 0 ∧ s' = s) ∨
    ∃ raw r, s.historyAddedCount ≤ s.history.length ∧
      Forall₂ (fun e b => S.marshalEvent e = some b) (s.history.drop (s.history.length - s.historyAddedCount)) raw ∧
      S.sign ⟨raw, s.history.length - s.historyAddedCount, s.rawSignatures.getLast?, s.signingCertificates⟩ = some r ∧
      s' = ((s.setMarshaledNewHistory raw).addNewCert r.newCert).addSignature r.signature r.rawSignature := by
  unfold State.signNewEvents at h
  split at h
  · rename_i h0
    cases h
    exact .inl ⟨by simpa using h0, rfl⟩
  · split at h
    · cases h
    · dsimp only at h
      split at h
      · cases h
      · split at h
        · cases h
        · rename_i raw hraw
          split at h
          · cases h
          · rename_i r hr
            cases h
            exact .inr ⟨raw, r, by omega, forall₂_of_mapM hraw, hr, rfl⟩

/-- After signing, the bytes `raw` of the whole history are signed: those in the store and
those about to be saved. -/
structure Ready (S : HistorySigning B) (W : Wire B) (opts : Options) (rows : Rows B) (s : State B) (raw : List B) :
    Prop extends OwnCerts S opts s where
  length : raw.length = s.history.length
  rows : ∀ i < s.history.length - s.historyAddedCount, rows (.entry .history i) = raw[i]?
  marshaled : s.marshaledNewHistory = raw.drop (s.history.length - s.historyAddedCount)
  bytes : SignedBytes W s
  covers : Covers 0 s.signatures raw.length
  chain : SignedChain S s.signingCertificates raw none s.signatures s.rawSignatures

theorem signedBytes_of_marshal (hS : S.Correct W opts) {new : List B}
    (hm : Forall₂ (fun e b => S.marshalEvent e = some b)
      (s.history.drop (s.history.length - s.historyAddedCount)) new) :
    SignedBytes W (s.setMarshaledNewHistory new) := by
  intro j b hb
  obtain ⟨hj, rfl⟩ := List.getElem?_eq_some_iff.1 hb
  have hj' : j < (s.history.drop (s.history.length - s.historyAddedCount)).length := hm.length_eq ▸ hj
  have hmj := (List.forall₂_iff_get.1 hm).2 j hj' hj
  refine ⟨(s.history.drop (s.history.length - s.historyAddedCount))[j], ?_, hS.marshalEvent _ _ hmj⟩
  show s.history[s.history.length - s.historyAddedCount + j]? = _
  rw [← getElem?_drop, List.getElem?_eq_getElem hj']

theorem addNewCert_certificates (s : State B) (c : Option SigningCertificate) :
    (s.addNewCert c).signingCertificates = s.signingCertificates ++ c.toList := by
  cases c <;> simp [State.addNewCert, State.addSigningCertificate]

/-- A new certificate changes nothing but the certificates. -/
theorem addNewCert_eq (s : State B) (c : Option SigningCertificate) :
    ∃ certs added, s.addNewCert c =
      { s with signingCertificates := certs, signingCertificatesAddedCount := added } := by
  cases c <;> exact ⟨_, _, rfl⟩

theorem Signed.sign (hS : S.Correct W opts) (h : Signed S opts rows s) (hs : s.signNewEvents S true = .ok s') :
    ∃ raw, Ready S W opts rows s' raw := by
  obtain ⟨raw, hr⟩ := h.signed
  rcases signNewEvents_ok hs with ⟨h0, rfl⟩ | ⟨new, r, hle, hm, hsign, rfl⟩
  · have hlen : raw.length = s'.history.length := by rw [hr.length, h0, Nat.sub_zero]
    refine ⟨raw, h.toOwnCerts, hlen, ?_, ?_, ?_, hr.covers, hr.chain⟩
    · intro i hi
      exact hr.rows i (by rwa [hr.length])
    · rw [h.marshaled, h0, Nat.sub_zero, ← hlen, drop_length]
    · intro j b hb
      simp [h.marshaled] at hb
  · have hnew : new.length = s.historyAddedCount := by
      rw [← hm.length_eq, length_drop]
      omega
    obtain ⟨hstart, hcount⟩ := hS.range _ _ hsign
    obtain ⟨cert, hcert, hgen⟩ := hS.genuine _ _ hsign
    have hcerts := addNewCert_certificates (s.setMarshaledNewHistory new) r.newCert
    have hbytes := signedBytes_of_marshal hS hm
    have hev : r.signature.events (raw ++ new) = new := by
      rw [HistorySignature.events, hstart, hcount, ← hr.length, drop_left, take_length]
    have hcov : Covers 0 (s.signatures ++ [r.signature]) (raw ++ new).length := by
      rw [length_append, ← hcount]
      exact hr.covers.snoc (hstart.trans hr.length.symm)
    have hchain : SignedChain S (s.signingCertificates ++ r.newCert.toList) (raw ++ new) none
        (s.signatures ++ [r.signature]) (s.rawSignatures ++ [r.rawSignature]) := by
      refine (hr.chain.extend hr.covers.end_le _ _).snoc hcert ?_
      rwa [hev, Option.or_none]
    have hid : ∀ c ∈ s.signingCertificates ++ r.newCert.toList,
        verifyCertAppIdentity S.toChainVerifier c.certificate opts.appID opts.nspace = true := by
      intro c hc
      rcases mem_append.1 hc with hc | hc
      · exact h.identity c hc
      · exact hS.identity _ _ hsign c (by simpa using hc)
    obtain ⟨certs, added, heq⟩ := addNewCert_eq (s.setMarshaledNewHistory new) r.newCert
    rw [heq] at hcerts ⊢
    obtain rfl : certs = s.signingCertificates ++ r.newCert.toList := hcerts
    refine ⟨raw ++ new, ⟨h.appID, h.nspace, ?_, hid⟩, ?_, ?_, ?_, hbytes, hcov, hchain⟩
    · intro hnil
      simp [State.addSignature] at hnil
    · rw [length_append, hr.length, hnew]
      exact Nat.sub_add_cancel hle
    · intro i hi
      have hi' : i < raw.length := by rwa [hr.length]
      rw [getElem?_append_left hi']
      exact hr.rows i hi'
    · show new = (raw ++ new).drop (s.history.length - s.historyAddedCount)
      rw [← hr.length, drop_left]

/-- The bytes a save leaves in the store are the bytes that were signed. -/
theorem Ready.saved_rows (h : Ready S W opts rows s raw) (hreq : s.getSaveRequest W = .ok req) :
    ∀ i < raw.length, applyRequest rows req (.entry .history i) = raw[i]? := by
  intro i hi
  have he := (saveEffect hreq rows).history
  have hi' : i < s.history.length := by rwa [← h.length]
  rw [he.row i, written, if_neg (by omega)]
  by_cases hold : i < s.history.length - s.historyAddedCount
  · rw [if_neg (by omega)]
    exact h.rows i hold
  · have hidx : s.history.length - s.historyAddedCount + (i - (s.history.length - s.historyAddedCount)) = i := by omega
    rw [if_pos (by omega), addedData_getElem?, hidx, List.getElem?_eq_getElem hi', Option.map_some, State.historyData,
      h.marshaled, getElem?_drop, hidx, List.getElem?_eq_getElem hi, Option.getD_some]

theorem Ready.signed (h : Ready S W opts rows s raw) (hreq : s.getSaveRequest W = .ok req) :
    Signed S opts (applyRequest rows req) s.resetChangeTracking :=
  ⟨{ h.toOwnCerts with }, rfl, raw, h.length, h.saved_rows hreq, h.covers, h.chain⟩

end LoadSave

/-! ## Whole runs -/

/-- No certificate row without a signature row. -/
def NoStrayCert (rows : Rows B) : Prop :=
  rows (.entry .signature 0) = none → rows (.entry .sigcert 0) = none

/-- The invariant of runs with signing. -/
structure SigningInv (S : HistorySigning B) (W : Wire B) (opts : Options) (y : Sys B) : Prop where
  tracked : Tracked W y
  signed : Signed S opts y.rows y.state
  noStray : NoStrayCert y.rows

section Runs
variable {S : HistorySigning B} {W : Wire B} {opts : Options} {y y' : Sys B}

theorem head_row_iff {R : M → B → Prop} {items : List M} (h : Holds R rows items) : rows 0 = none ↔ items = [] := by
  constructor
  · intro h0
    cases items with
    | nil => rfl
    | cons x xs =>
      obtain ⟨v, hv, -⟩ := h.row 0 x rfl
      rw [h0] at hv
      cases hv
  · rintro rfl
    exact h.none 0 (Nat.le_refl _)

theorem Declared.noStray_iff {rows : Rows B} (h : Declared W rows c) :
    NoStrayCert rows ↔ (c.signatures = [] → c.signingCertificates = []) := by
  rw [NoStrayCert, head_row_iff h.signatures, head_row_iff h.signingCertificates]

theorem signAndSaveState_ok (hsig : opts.signer = true) (h : y.signAndSaveState S W opts = .ok y') :
    ∃ s, y.state.signNewEvents S true = .ok s ∧
      ({ y with state := s } : Sys B).save W s.marshaledNewHistory = .ok y' := by
  unfold Sys.signAndSaveState at h
  rw [hsig] at h
  cases hs : y.state.signNewEvents S true with
  | error e => simp [hs] at h
  | ok s =>
    refine ⟨s, rfl, ?_⟩
    rw [hs] at h
    dsimp only at h
    cases hsv : ({ y with state := s } : Sys B).save W s.marshaledNewHistory with
    | error e => rw [hsv] at h; cases h
    | ok z => rw [hsv] at h; cases h; rfl

theorem Tracked.sign (hS : S.Correct W opts) (h : Tracked W y) (hs : y.state.signNewEvents S true = .ok s) :
    Tracked W { y with state := s } := by
  rcases signNewEvents_ok hs with ⟨-, rfl⟩ | ⟨new, r, -, -, hsign, rfl⟩
  · exact h
  · have hm : Tracked W { y with state := y.state.setMarshaledNewHistory new } :=
      { h with synced := h.synced.setMarshaled new }
    have hsignature : (StateOp.addSignature r.signature r.rawSignature).Permitted W := hS.rawSignature _ _ hsign
    cases hc : r.newCert with
    | none => exact hm.op hsignature
    | some cert => exact (hm.op (o := .addSigningCertificate cert) trivial).op hsignature

/-- What a signed save leaves. -/
theorem SigningInv.saved (hS : S.Correct W opts) (hsig : opts.signer = true) (h : SigningInv S W opts y)
    (hs : y.signAndSaveState S W opts = .ok y') :
    Tracked W y' ∧ Signed S opts y'.rows y'.state ∧ Declared W y'.rows y'.state.content ∧
      Holds (· = ·) (fun i => y'.rows (.entry .signature i)) y'.state.rawSignatures ∧ y'.state.historyAddedCount = 0 ∧
      (y.uncounted = false → Stored W y'.rows y'.state.content) := by
  obtain ⟨s, hsign, hsave⟩ := signAndSaveState_ok hsig hs
  obtain ⟨raw, hready⟩ := h.signed.sign hS hsign
  have ht := h.tracked.sign hS hsign
  have ht' := ht.save hready.bytes hsave
  have hstored := fun hu => ht.stored hu hready.bytes hsave
  obtain ⟨req, hreq, rfl⟩ := Sys.save_ok hsave
  exact ⟨ht', hready.signed hreq, ht.synced.declared hready.bytes hreq,
    (saveEffect hreq y.rows).signature.holds ht.synced.signature fun _ _ _ => rfl, rfl, hstored⟩

theorem SigningInv.step (hS : S.Correct W opts) (hsig : opts.signer = true) (h : SigningInv S W opts y)
    (hs : SigningStep S W opts y y') : SigningInv S W opts y' := by
  cases hs with
  | op o ho hu => exact ⟨h.tracked.op ho, h.signed.op hu, h.noStray⟩
  | save hsave =>
    obtain ⟨ht, hsn, hd, -, -, -⟩ := h.saved hS hsig hsave
    exact ⟨ht, hsn, hd.noStray_iff.2 hsn.noStray⟩
  | load tags hl htm =>
    rcases h.tracked.store with he | ⟨c, hd, hu⟩
    · rw [load_of_empty he] at hl
      cases hl
    · obtain ⟨inbox, -, hloaded, heq⟩ := stored_of_load hd hu.digests h.tracked.optional (by rw [← Sys.load, hl])
      refine ⟨.load hd hu h.tracked.optional hl, .load hS hsig hloaded (hd.noStray_iff.1 h.noStray) htm ?_, h.noStray⟩
      rw [← heq, ← Sys.load, hl]

theorem SigningReached.inv (hS : S.Correct W opts) (hsig : opts.signer = true) (h : SigningReached S W opts y) :
    SigningInv S W opts y := by
  refine Reachable.invariant (SigningInv S W opts) ?_ (fun _ _ hi hs => hi.step hS hsig hs) h
  intro y hs
  cases hs with
  | new =>
    refine ⟨.new W opts, ⟨⟨rfl, rfl, fun _ => rfl, by simp [newState]⟩, rfl, [], ?_⟩, fun _ => rfl⟩
    exact .nil (Nat.le_refl _) rfl rfl
  | loaded tags hst hu hcert hopt hl htm =>
    obtain ⟨inbox, -, hloaded, heq⟩ := stored_of_load hst.toDeclared hu.digests hopt (by rw [← Sys.load, hl])
    refine ⟨.load hst.toDeclared hu hopt hl, .load hS hsig hloaded hcert htm ?_, hst.toDeclared.noStray_iff.2 hcert⟩
    rw [← heq, ← Sys.load, hl]

theorem eq_of_rows {bs' : List B} (hlen : bs.length = bs'.length) (h : ∀ i < bs.length, rows i = bs[i]?)
    (h' : ∀ i < bs'.length, rows i = bs'[i]?) : bs = bs' := by
  refine ext_getElem hlen fun i hi hi' => ?_
  have := (h i hi).symm.trans (h' i hi')
  rwa [List.getElem?_eq_getElem hi, List.getElem?_eq_getElem hi', Option.some.injEq] at this

/-- A load of rows whose history is signed throughout passes the check of the signatures. -/
theorem Signed.verified (hS : S.Correct W opts) {rows : Rows B} (h : Signed S opts rows s)
    (hadd : s.historyAddedCount = 0) (hsig : Holds (· = ·) (fun i => rows (.entry .signature i)) s.rawSignatures)
    {inbox : List HistoryEvent} (hl : Loaded W rows tags opts etag { s.content with inbox := inbox } status s') :
    verifySignatureChain S.toChainVerifier s' = true := by
  obtain ⟨raw, hr⟩ := h.signed
  have hh : s'.history = s.history := hl.history
  have hs : s'.signatures = s.signatures := hl.signatures
  have hc : s'.signingCertificates = s.signingCertificates := hl.signingCertificates
  have hlen : raw.length = s'.rawHistory.length := by
    rw [hr.length, hadd, Nat.sub_zero, ← hl.rawHistory.length_eq, hh]
  have hraw : raw = s'.rawHistory :=
    eq_of_rows hlen hr.rows fun i hi => hl.rawHistory_rows i (hl.rawHistory.length_eq ▸ hi)
  have hsigs : s.rawSignatures = s'.rawSignatures := by
    have hrow : ∀ i < s.rawSignatures.length, rows (.entry .signature i) = s.rawSignatures[i]? := by
      intro i hi
      obtain ⟨v, hv, rfl⟩ := hsig.row i _ (List.getElem?_eq_getElem hi)
      rw [hv, List.getElem?_eq_getElem hi]
    refine eq_of_rows ?_ hrow fun i hi => hl.rawSignatures_rows i (hl.rawSignatures.length_eq ▸ hi)
    rw [← hr.chain.length_eq, ← hl.rawSignatures.length_eq, hs]
  refine verifySignatureChain_iff.2 ⟨fun last hlast => ?_, ?_, ?_⟩
  · rw [← hraw]
    exact hr.covers.last (hs ▸ hlast)
  · refine (hS.verifyChain _ _ _).2 ⟨s'.signatures, raw.length, hl.rawSignatures, Nat.le_of_eq hlen, hs ▸ hr.covers, ?_⟩
    rw [hs, hc, ← hsigs, ← hraw]
    exact hr.chain
  · rw [hl.appID, hl.nspace, hc]
    exact h.identity

/-- An app whose certificates were accepted has a name and a namespace. -/
theorem identity_of_verified {c : Blob} (h : verifyCertAppIdentity S.toChainVerifier c opts.appID opts.nspace = true) :
    opts.appID ≠ "" ∧ opts.nspace ≠ "" := by
  unfold verifyCertAppIdentity at h
  simp only [Bool.and_eq_true, bne_iff_ne] at h
  exact ⟨h.1.1.1, h.1.1.2⟩

/-- Signature coverage: on a host that signs, after every save of every run the signatures
cover the saved history without gap or overlap, each is made with a saved certificate over
the very bytes in the store, and the check that the next load makes accepts them. -/
theorem signature_coverage (hS : S.Correct W opts) (hsig : opts.signer = true) (hr : SigningReached S W opts y)
    (h : y.signAndSaveState S W opts = .ok y') :
    Covers 0 y'.state.signatures y'.state.history.length ∧
    (∀ sig ∈ y'.state.signatures, ∃ b cert, y'.rows (.entry .sigcert sig.certificateIndex) = some b ∧
      W.signingCertificate.unmarshal b = some cert ∧
      y'.state.signingCertificates[sig.certificateIndex]? = some cert) ∧
    (∃ raw, raw.length = y'.state.history.length ∧ (∀ i < raw.length, y'.rows (.entry .history i) = raw[i]?) ∧
      SignedChain S y'.state.signingCertificates raw none y'.state.signatures y'.state.rawSignatures) ∧
    (∀ tags s, (y'.load W S.toChainVerifier opts tags).state = some s →
      s.signatures = y'.state.signatures ∧ verifySignatureChain S.toChainVerifier s = true ∧
        (y'.load W S.toChainVerifier opts tags).err = none) ∧
    (y.uncounted = false → checkLengths y'.state.metadata = .ok () →
      ∀ tags, ∃ s, (y'.load W S.toChainVerifier opts tags).state = some s) := by
  obtain ⟨ht, hsn, hd, hraw, hadd, hstored⟩ := (hr.inv hS hsig).saved hS hsig h
  obtain ⟨raw, hrows⟩ := hsn.signed
  have hlen : raw.length = y'.state.history.length := by rw [hrows.length, hadd, Nat.sub_zero]
  refine ⟨hlen ▸ hrows.covers, ?_, ⟨raw, hlen, hrows.rows, hrows.chain⟩, ?_, ?_⟩
  · intro sig hmem
    obtain ⟨cert, hcert⟩ := hrows.chain.certificate sig hmem
    obtain ⟨b, hb, hdec⟩ := hd.signingCertificates.row _ cert hcert
    exact ⟨b, cert, hb, hdec, hcert⟩
  · intro tags s hs
    obtain ⟨inbox, -, hl, heq⟩ := stored_of_load hd ht.synced.digests ht.optional hs
    have hv := hsn.verified hS hadd hraw hl
    have hsigs : s.signatures = y'.state.signatures := hl.signatures
    refine ⟨hsigs, hv, ?_⟩
    rw [Sys.load, heq, enforceSigning_of_verified hsig]
    · intro h0
      have hzero : 0 = raw.length := by simpa [← hsigs, h0, Covers] using hrows.covers
      rw [hl.history]
      exact eq_nil_of_length_eq_zero (hlen ▸ hzero.symm)
    · intro hne
      obtain ⟨sig, hsigmem⟩ := exists_mem_of_ne_nil _ (hsigs ▸ hne)
      obtain ⟨cert, hcert⟩ := hrows.chain.certificate sig hsigmem
      obtain ⟨ha, hn⟩ := identity_of_verified (hsn.identity cert (mem_of_getElem? hcert))
      exact ⟨ha, hn, hv⟩
  · intro hu hcheck tags
    obtain ⟨s, -, heq⟩ := load_of_stored (hstored hu) ht.synced.digests ht.optional hcheck S.toChainVerifier tags opts
    exact ⟨s, by rw [Sys.load, heq, enforceSigning_state]⟩

end Runs

/-! ## A run on the plain format -/

/-- A stand-in for a digest that concrete runs are computed with. -/
def plainDigest (bs : List Plain) : Blob := [UInt8.ofNat bs.length]

def plainSigned (prev : Option Plain) (events : List Plain) : Plain → Bool
  | .historySignature sig =>
    sig.eventCount == events.length && sig.eventsDigest == plainDigest events &&
      sig.previousSignatureDigest == plainDigest prev.toList
  | _ => false

def plainVerify (certs : List SigningCertificate) (events : List Plain) : Option Plain → Nat → List Plain → Bool
  | _, i, [] => i ≤ events.length
  | prev, i, .historySignature sig :: rest =>
    sig.startEventIndex == i && (certs[sig.certificateIndex]?).isSome &&
      plainSigned prev (sig.events events) (.historySignature sig) &&
      plainVerify certs events (some (.historySignature sig)) (i + sig.eventCount) rest
  | _, _, _ => false

/-- A signer with one certificate. -/
def plainSigning : HistorySigning Plain where
  verifyChain raws certs events := plainVerify certs events none 0 raws
  spiffePath _ := some "/ns/default/app"
  marshalEvent e := some (.event e)
  sign o :=
    let sig : HistorySignature :=
      ⟨o.startEventIndex, o.rawEvents.length, plainDigest o.previousSignatureRaw.toList, plainDigest o.rawEvents, 0, [0]⟩
    some ⟨sig, .historySignature sig, if o.existingCerts = [] then some ⟨[1]⟩ else none⟩
  Genuine _ prev events b := plainSigned prev events b = true

def signedOptions : Options := ⟨"app", "default", true⟩

theorem plainVerify_iff (certs : List SigningCertificate) (events : List Plain) (prev : Option Plain) (i : Nat)
    (raws : List Plain) : plainVerify certs events prev i raws = true ↔
      ∃ sigs n, Forall₂ (Decodes plainWire.historySignature.unmarshal) sigs raws ∧ n ≤ events.length ∧
        Covers i sigs n ∧ SignedChain plainSigning certs events prev sigs raws := by
  induction raws generalizing prev i with
  | nil =>
    constructor
    · intro h
      exact ⟨[], i, .nil, by simpa [plainVerify] using h, rfl, trivial⟩
    · rintro ⟨sigs, n, hd, hn, hcov, -⟩
      obtain rfl := List.forall₂_nil_right_iff.1 hd
      obtain rfl : i = n := hcov
      simpa [plainVerify] using hn
  | cons b raws ih =>
    constructor
    · intro h
      cases b with
      | historySignature sig =>
        simp only [plainVerify, Bool.and_eq_true, beq_iff_eq] at h
        obtain ⟨⟨⟨hstart, hcert⟩, hgen⟩, hrest⟩ := h
        obtain ⟨sigs, n, hd, hn, hcov, hchain⟩ := (ih _ _).1 hrest
        obtain ⟨cert, hcert⟩ := Option.isSome_iff_exists.1 hcert
        exact ⟨sig :: sigs, n, .cons rfl hd, hn, ⟨hstart, hcov⟩, ⟨cert, hcert, hgen⟩, hchain⟩
      | _ => cases h
    · rintro ⟨sigs, n, hd, hn, hcov, hchain⟩
      cases hd with
      | @cons sig _ sigs _ hdec hd =>
        cases b with
        | historySignature sig' =>
          obtain rfl : sig' = sig := Option.some.inj hdec
          obtain ⟨⟨cert, hcert, hgen⟩, hchain⟩ := hchain
          have hrest := (ih _ _).2 ⟨sigs, n, hd, hn, hcov.2, hchain⟩
          have hgen' : plainSigned prev (sig'.events events) (.historySignature sig') = true := hgen
          simp [plainVerify, hcov.1, hcert, hgen', hrest]
        | _ => cases hdec

theorem plainSigning_correct : plainSigning.Correct plainWire signedOptions where
  marshalEvent e b h := by
    cases h
    rfl
  rawSignature o r h := by
    cases h
    rfl
  range o r h := by
    cases h
    exact ⟨rfl, rfl⟩
  genuine o r h := by
    cases h
    have hsigned : plainSigned o.previousSignatureRaw o.rawEvents (.historySignature ⟨o.startEventIndex,
        o.rawEvents.length, plainDigest o.previousSignatureRaw.toList, plainDigest o.rawEvents, 0, [0]⟩) = true := by
      simp [plainSigned]
    cases hc : o.existingCerts with
    | nil => exact ⟨⟨[1]⟩, rfl, hsigned⟩
    | cons c cs => exact ⟨c, rfl, hsigned⟩
  identity o r h c hc := by
    cases h
    split at hc
    · obtain rfl : ⟨[1]⟩ = c := Option.some.inj hc
      decide
    · cases hc
  verifyChain raws certs events := plainVerify_iff certs events none 0 raws

/-- A new instance with one event to sign. -/
def unsignedTurn : Sys Plain :=
  Sys.op (.addToHistory ⟨-1, none, none, .workflowStarted none⟩) ⟨newState signedOptions, fun _ => none, "", false⟩

/-- The instance after its first save, with two more events to sign. -/
def nextTurn : Sys Plain :=
  let saved := (unsignedTurn.signAndSaveState plainSigning plainWire signedOptions).toOption.getD unsignedTurn
  saved.op (.applyRuntimeStateChanges
    ⟨false, [⟨0, none, none, .workflowStarted none⟩, ⟨1, none, none, .workflowStarted none⟩], none⟩)

theorem nextTurn_signature_coverage : ∃ y' s,
    nextTurn.signAndSaveState plainSigning plainWire signedOptions = .ok y' ∧
      Covers 0 y'.state.signatures 3 ∧
      (y'.load plainWire plainSigning.toChainVerifier signedOptions fun _ => none).state = some s ∧
      s.signatures.map (·.eventCount) = [1, 2] ∧ verifySignatureChain plainSigning.toChainVerifier s = true := by
  have hfirst : SigningReached plainSigning plainWire signedOptions unsignedTurn :=
    .step (.start .new) (.op _ trivial trivial)
  have hr : SigningReached plainSigning plainWire signedOptions nextTurn :=
    .step (.step hfirst (.save rfl)) (.op _ trivial trivial)
  obtain ⟨hcov, -, -, hload, hex⟩ := signature_coverage plainSigning_correct rfl hr rfl
  obtain ⟨s, hs⟩ := hex rfl rfl fun _ => none
  obtain ⟨hsigs, hv, -⟩ := hload _ s hs
  exact ⟨_, s, rfl, hcov, hs, by rw [hsigs]; rfl, hv⟩

end Dapr.Workflow
