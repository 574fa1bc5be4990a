import Dapr.Workflow.Fidelity
/-!
# Several hosts on one instance

While an actor moves, several hosts can hold a cached state of the same instance. The
metadata row carries a version token: a save presents the token its state was read with, and
the store refuses a transaction whose token is not the current one. A transaction does not
return the new token, so a host reads the metadata row once more after it. Every access to
the store is a step of its own here, and the steps of the hosts interleave freely.

Ghost data: `base` is the content of the state when it was last read or saved (`none` for an
instance that did not exist), and a host that has yet to read its token back remembers the
version its own transaction made.
-/

namespace Dapr.Workflow

open Lib.Rows Lib.Runs

variable {ι B : Type}

/-- A cached state and the content it was read from. -/
structure Cached (B : Type) where
  state : State B
  base : Option Content
  uncounted : Bool

/-- What a host has under way. -/
inductive Phase (B : Type) where
  | idle
  /-- A load has read the metadata row. -/
  | reading (item : StateItem B)
  | missing
  /-- A transaction was accepted and its version token is yet to be read. -/
  | refreshing (version : Nat)
  /-- The metadata row was found empty and is read once more. -/
  | confirming

structure Host (B : Type) where
  cached : Option (Cached B)
  phase : Phase B

/-- A store and hosts that have an instance in it. -/
structure World (ι B : Type) where
  rows : Rows B
  /-- The token of the metadata row, fresh at every write of it. -/
  version : ETag
  hosts : ι → Host B

/-- What comes of a read of the metadata row: an error, no response, an empty response of a
store that does not serve its own write yet, or the row. -/
inductive Read where
  | failed
  | noResponse
  | lagging
  | row

/-- What a host does. -/
inductive Action (B : Type) where
  | getMetadata (r : Read)
  | getBulk (tags : Key → Option ETag)
  | create
  | op (o : StateOp B)
  | confirmCachedState (r : Read)
  | multi (raw : List B)
  | refresh (r : Read)
  | confirm (r : Read)
  | drop

/-! ## The steps -/

/-- A read of several rows. The token of the metadata row is the store's version, those of
the other rows are arbitrary. -/
def World.bulk (w : World ι B) (tags : Key → Option ETag) : Key → StateItem B :=
  readItem w.rows (Function.update tags .metadata (some w.version))

def World.metadataItem (w : World ι B) : StateItem B :=
  w.bulk (fun _ => none) .metadata

/-- Whether the store takes a transaction that presents this token for the metadata row. -/
def World.accepts (w : World ι B) : Option ETag → Bool
  | none => true
  | some t => (w.rows .metadata).isSome && t == w.version

/-- Whether a metadata row has the given generation and history length, and the given token
when both carry one. -/
def rowMatches (W : Wire B) (item : StateItem B) (etag : Option ETag) (generation historyLength : Nat) : Bool :=
  (match item.etag, etag with
    | some cur, some t => cur == t
    | _, _ => true) &&
  match item.data.bind W.metadata.unmarshal with
  | none => false
  | some md => md.generation == generation && md.historyLength == historyLength

def World.read (w : World ι B) : Read → Option (StateItem B)
  | .failed => none
  | .noResponse => none
  | .lagging => some ⟨none, none⟩
  | .row => some w.metadataItem

def StateItem.isEmpty (W : Wire B) (item : StateItem B) : Bool :=
  item.data.all fun b => W.len b = 0

namespace Host

def dropped : Host B := ⟨none, .idle⟩

def keep (m : Cached B) : Host B := ⟨some m, .idle⟩

end Host

/-- The token read back after a save. -/
def afterSave (W : Wire B) (w : World ι B) (m : Cached B) (r : Read) : Host B :=
  match r with
  | .failed => .dropped
  | r =>
    match w.read r with
    | none => .keep { m with state := m.state.setMetadataETag none }
    | some item =>
      if item.isEmpty W then
        if m.state.metadataETagSeen then ⟨some m, .confirming⟩
        else .keep { m with state := m.state.setMetadataETag none }
      else .keep { m with state := m.state.setMetadataETag item.etag }

/-- Whether a cached state still describes the metadata row. -/
def confirmCached (W : Wire B) (w : World ι B) (m : Cached B) (r : Read) : Host B :=
  match r with
  | .failed => .keep m
  | r =>
    match w.read r with
    | none => .dropped
    | some item =>
      if item.isEmpty W || !rowMatches W item m.state.metadataETag m.state.generation m.state.history.length then .dropped
      else .keep m

def startLoad (w : World ι B) (r : Read) : Host B :=
  match r with
  | .failed => .dropped
  | r => ⟨none, .reading ((w.read r).getD ⟨none, none⟩)⟩

def finishLoad (r : LoadResult B) : Host B :=
  match r with
  | ⟨some s, none⟩ => .keep ⟨s, some s.content, false⟩
  | ⟨none, none⟩ => ⟨none, .missing⟩
  | _ => .dropped

section Steps
variable [DecidableEq ι] (W : Wire B) (H : ChainVerifier B) (opts : Options)

def World.set (w : World ι B) (h : ι) (x : Host B) : World ι B :=
  { w with hosts := Function.update w.hosts h x }

/-- The transaction of a save: refused, or applied with a new version of the metadata row. -/
def World.multi (w : World ι B) (h : ι) (m : Cached B) (raw : List B) : World ι B :=
  let s := m.state.setMarshaledNewHistory raw
  match s.getSaveRequest W with
  | .error _ => w.set h .dropped
  | .ok req =>
    if w.accepts s.metadataETag then
      { rows := applyRequest w.rows req
        version := w.version + 1
        hosts := Function.update w.hosts h
          ⟨some ⟨s.resetChangeTracking, some s.content, m.uncounted⟩, .refreshing (w.version + 1)⟩ }
    else w.set h .dropped

/-- One step of a host; `none` when the host is not in a position to take it. -/
def World.next (w : World ι B) (h : ι) (a : Action B) : Option (World ι B) :=
  match a, (w.hosts h).phase, (w.hosts h).cached with
  | .getMetadata r, .idle, none => some (w.set h (startLoad w r))
  | .getBulk tags, .reading item, none =>
    some (w.set h (finishLoad (loadWorkflowStateOnce W H opts item (w.bulk tags))))
  | .create, .missing, none => some (w.set h (.keep ⟨newState opts, none, false⟩))
  | .op o, .idle, some m => some (w.set h (.keep { m with state := o.run m.state, uncounted := o.uncounted m.uncounted }))
  | .confirmCachedState r, .idle, some m => some (w.set h (confirmCached W w m r))
  | .multi raw, .idle, some m => some (w.multi W h m raw)
  | .refresh r, .refreshing _, some m => some (w.set h (afterSave W w m r))
  -- whatever the second read finds, the cached state is given up
  | .confirm _, .confirming, some _ => some (w.set h .dropped)
  | .drop, _, _ => some (w.set h .dropped)
  | _, _, _ => none

end Steps

/-! ## Runs -/

/-- The operations other than recording a version token. -/
def StateOp.KeepsETag : StateOp B → Prop
  | .setMetadataETag _ => False
  | _ => True

/-- What the callers of the operations guarantee. -/
def Action.Permitted (W : Wire B) (w : World ι B) (h : ι) : Action B → Prop
  | .op o => o.Permitted W ∧ o.KeepsETag
  | .multi raw => ∀ m, (w.hosts h).cached = some m → SignedBytes W (m.state.setMarshaledNewHistory raw)
  | _ => True

/-- No other host saves between a host's save and the read of its new token; a save without
a token meets no metadata row; and no save is taken while the inbox holds an event that its
counter does not know of. -/
def Action.Undisturbed (w : World ι B) (h : ι) : Action B → Prop
  | .refresh .row => ∀ v, (w.hosts h).phase = .refreshing v → w.version = v
  | .multi _ => ∀ m, (w.hosts h).cached = some m →
      (m.state.metadataETag = none → w.rows .metadata = none) ∧ m.uncounted = false
  | _ => True

section Runs
variable [DecidableEq ι] (W : Wire B) (H : ChainVerifier B) (opts : Options)

/-- A step of some host that meets the condition. -/
def World.Step (Cond : World ι B → ι → Action B → Prop) : World ι B → World ι B → Prop :=
  Steps (fun w (l : ι × Action B) => l.2.Permitted W w l.1 ∧ Cond w l.1 l.2) fun w l => w.next W H opts l.1 l.2

/-- At the start no host has the instance in memory; it does not exist, or its rows are in
good order. -/
def World.Start (w : World ι B) : Prop :=
  (∀ h, w.hosts h = .dropped) ∧
    ((∀ k, w.rows k = none) ∨ ∃ c status, Stored W w.rows c ∧ c.Usable W ∧ OptionalRows W w.rows status)

/-- What actions of the hosts that meet the condition lead to. -/
def World.Reached (Cond : World ι B → ι → Action B → Prop) (w : World ι B) : Prop :=
  Reachable (World.Start W) (World.Step W H opts Cond) w

end Runs

/-- The rows hold what a state started from. -/
def Matches (W : Wire B) (rows : Rows B) : Option Content → Prop
  | none => ∀ k, rows k = none
  | some c => Stored W rows c

/-! ## A load keeps the token it read -/

/-- Whatever state a step of a load gives, it has the token. -/
def KeepsToken (etag : Option ETag) : Except (LoadResult B) (State B) → Prop
  | .ok s => s.metadataETag = etag
  | .error r => ∀ s, r.state = some s → s.metadataETag = etag

section Token
variable {W : Wire B} {etag : Option ETag} {bulk : Key → StateItem B} {s : State B}

theorem KeepsToken.bind {x : Except (LoadResult B) (State B)} {f : State B → Except (LoadResult B) (State B)}
    (hx : KeepsToken etag x) (hf : ∀ s, s.metadataETag = etag → KeepsToken etag (f s)) : KeepsToken etag (x >>= f) := by
  cases x with
  | error r => exact hx
  | ok s => exact hf s hx

theorem condemned_state (s : State B) (e : LoadError) : (condemned s e).state = some s := by
  unfold condemned
  split <;> rfl

theorem keepsToken_condemned {e : LoadError} (h : s.metadataETag = etag) :
    KeepsToken etag (.error (condemned s e)) := by
  intro s' hs'
  rw [condemned_state, Option.some.injEq] at hs'
  exact hs' ▸ h

theorem keepsToken_none {e : LoadError} : KeepsToken etag (.error (⟨none, some e⟩ : LoadResult B)) := by
  intro s hs
  cases hs

theorem loadSigningCertificates_token (h : s.metadataETag = etag) (n : Nat) :
    KeepsToken etag (loadSigningCertificates W bulk n s) := by
  unfold loadSigningCertificates
  split
  · exact h
  · exact keepsToken_condemned h
  · exact keepsToken_none

theorem loadExternalCerts_token (h : s.metadataETag = etag) (n : Nat) :
    KeepsToken etag (loadExternalCerts W bulk n s) := by
  unfold loadExternalCerts
  split
  · dsimp only
    split
    · exact keepsToken_condemned h
    · exact h
  · exact keepsToken_condemned h
  · exact keepsToken_none

theorem loadSignatures_token (h : s.metadataETag = etag) (n : Nat) : KeepsToken etag (loadSignatures W bulk n s) := by
  unfold loadSignatures
  split
  · exact h
  · exact keepsToken_condemned h
  · exact keepsToken_none

theorem loadEvents_token {f : Family} {n : Nat} {r : LoadResult B} (h : loadEvents W bulk etag f n = .error r) :
    r.state = none := by
  unfold loadEvents at h
  split at h <;> cases h <;> rfl

theorem loadFamilies_token (opts : Options) (md : BackendWorkflowStateMetadata) :
    KeepsToken etag (loadFamilies W opts etag md bulk) := by
  unfold loadFamilies
  cases hi : loadEvents W bulk etag .inbox md.inboxLength with
  | error r =>
    intro s hs
    simp [loadEvents_token hi] at hs
  | ok inbox =>
    cases hh : loadEvents W bulk etag .history md.historyLength with
    | error r =>
      intro s hs
      simp [loadEvents_token hh] at hs
    | ok history =>
      refine (loadSigningCertificates_token rfl _).bind fun s hs => ?_
      exact (loadExternalCerts_token hs _).bind fun s hs => loadSignatures_token hs _

theorem clearCreationInput_token (s : State B) : s.clearCreationInput.metadataETag = s.metadataETag := by
  unfold State.clearCreationInput
  split <;> rfl

theorem loadOptional_token (h : s.metadataETag = etag) : KeepsToken etag (loadOptional W bulk s) := by
  have hcs : KeepsToken etag (loadCustomStatus W (bulk .customStatus) s) := by
    unfold loadCustomStatus
    repeat' split
    all_goals first | exact h | exact keepsToken_none
  refine hcs.bind fun s hs => ?_
  have hph : KeepsToken etag (loadPropagatedHistory W (bulk .propagatedHistory) s) := by
    unfold loadPropagatedHistory
    repeat' split
    all_goals first | exact hs | exact keepsToken_none
  refine hph.bind fun s hs => ?_
  have hpn : (loadParentNotify W (bulk .parentNotify) s).metadataETag = etag := by
    unfold loadParentNotify
    split <;> exact hs
  unfold loadCreationInput
  split
  · dsimp only
    split
    · exact hpn
    · split
      · exact keepsToken_none
      · split
        · exact (clearCreationInput_token _).trans hpn
        · exact hpn
  · exact hpn

/-- A state that a load returns has the token of the metadata row the load began with,
whatever happened to the rows since. -/
theorem loadWorkflowStateOnce_token {H : ChainVerifier B} {opts : Options} {item : StateItem B}
    (h : (loadWorkflowStateOnce W H opts item bulk).state = some s) : s.metadataETag = item.etag := by
  have hd : ∀ md, KeepsToken item.etag (loadDeclared W opts item.etag md bulk) := fun md =>
    (loadFamilies_token opts md).bind fun s hs => loadOptional_token hs
  unfold loadWorkflowStateOnce at h
  split at h
  · cases h
  · cases h
  · rename_i md _
    split at h
    · cases h
    · have hmd := hd md
      cases hl : loadDeclared W opts item.etag md bulk with
      | error r =>
        rw [hl] at h hmd
        exact hmd s h
      | ok s' =>
        rw [hl] at h hmd
        rw [enforceSigning_state, Option.some.injEq] at h
        exact h ▸ hmd

end Token

/-! ## What undisturbed runs keep -/

/-- The rows hold what the state started from, and the state says what of them is out of date. -/
def Fresh (W : Wire B) (rows : Rows B) (m : Cached B) : Prop :=
  Matches W rows m.base ∧ ∃ status, Tracked W ⟨m.state, rows, status, m.uncounted⟩

/-- A state with the current token is fresh; one without a token is while there is no row. -/
def TokenInv (W : Wire B) (rows : Rows B) (version : Nat) (m : Cached B) : Prop :=
  match m.state.metadataETag with
  | some t => t ≤ version ∧ (t = version → Fresh W rows m)
  | none => rows .metadata = none → Fresh W rows m

/-- What a host read is what is stored, unless the version has moved on. -/
def HostInv (W : Wire B) (rows : Rows B) (version : Nat) : Host B → Prop
  | ⟨none, .reading item⟩ =>
    item.data = none ∨ ∃ t, item.etag = some t ∧ t ≤ version ∧ (t = version → item.data = rows .metadata)
  | ⟨some m, .idle⟩ => TokenInv W rows version m
  | ⟨some m, .refreshing v⟩ => v ≤ version ∧ rows .metadata ≠ none ∧ (v = version → Fresh W rows m)
  | _ => True

/-- The store has no instance or one that can be loaded. -/
def StoreInv (W : Wire B) (rows : Rows B) : Prop :=
  (∀ k, rows k = none) ∨ ∃ c status, Stored W rows c ∧ c.Usable W ∧ OptionalRows W rows status

/-- The invariant of the store and of each host. -/
structure World.Inv (W : Wire B) (w : World ι B) : Prop where
  store : StoreInv W w.rows
  hosts : ∀ h, HostInv W w.rows w.version (w.hosts h)

section Invariant
variable {W : Wire B} {H : ChainVerifier B} {opts : Options} {rows rows' : Rows B} {version : Nat} {x : Host B}
  {m : Cached B}

/-- A token of an earlier version is not the current one. -/
theorem stale {t version : Nat} {P : Prop} (h : t ≤ version) : t ≤ version + 1 ∧ (t = version + 1 → P) :=
  ⟨by omega, fun he => by omega⟩

/-- A new version of the metadata row makes the tokens of the other hosts stale. -/
theorem HostInv.bump (h : HostInv W rows version x) (hrow : rows' .metadata ≠ none) :
    HostInv W rows' (version + 1) x := by
  rcases x with ⟨_ | m, _ | item | _ | v | _⟩
  case none.reading =>
    rcases h with h | ⟨t, ht, hle, -⟩
    · exact .inl h
    · exact .inr ⟨t, ht, stale hle⟩
  case some.idle =>
    change TokenInv W rows version m at h
    change TokenInv W rows' (version + 1) m
    unfold TokenInv at h ⊢
    split at h
    · exact stale h.1
    · exact fun hn => (hrow hn).elim
  case some.refreshing =>
    exact ⟨(stale (P := True) h.1).1, hrow, (stale h.1).2⟩
  all_goals trivial

theorem StoreInv.empty_of_metadata (h : StoreInv W rows) (hn : rows .metadata = none) : ∀ k, rows k = none := by
  rcases h with h | ⟨c, status, hst, -, -⟩
  · exact h
  · have := hst.metadata
    rw [hn] at this
    simp [readMetadata] at this

theorem run_metadataETag {o : StateOp B} (ho : o.KeepsETag) (s : State B) :
    (o.run s).metadataETag = s.metadataETag := by
  cases o with
  | setMetadataETag etag => exact ho.elim
  | addExternalCert digest certDER =>
    simp only [StateOp.run, State.addExternalCert]
    repeat' split
    all_goals rfl
  | applyRuntimeStateChanges rs =>
    simp only [StateOp.run, State.applyRuntimeStateChanges]
    split <;> rfl
  | keepCreationInput start =>
    simp only [StateOp.run, State.keepCreationInputOf]
    split <;> rfl
  | clearCreationInput => exact clearCreationInput_token s
  | fromWorkflowState ws =>
    have hin : (ws.inbox.foldl State.addToInbox s.reset).metadataETag = s.metadataETag :=
      List.foldlRecOn (motive := fun t : State B => t.metadataETag = s.metadataETag) ws.inbox _ rfl fun t ht e _ => ht
    exact List.foldlRecOn (motive := fun t : State B => t.metadataETag = s.metadataETag) ws.history _ hin fun t ht e _ => ht
  | _ => rfl

theorem TokenInv.op (h : TokenInv W rows version m) {o : StateOp B} (ho : o.Permitted W) (hk : o.KeepsETag) :
    TokenInv W rows version { m with state := o.run m.state, uncounted := o.uncounted m.uncounted } := by
  have hfresh : Fresh W rows m →
      Fresh W rows { m with state := o.run m.state, uncounted := o.uncounted m.uncounted } :=
    fun ⟨hm, status, ht⟩ => ⟨hm, status, ht.op ho⟩
  unfold TokenInv at h ⊢
  rw [run_metadataETag hk]
  split at h
  · exact ⟨h.1, fun he => hfresh (h.2 he)⟩
  · exact fun hn => hfresh (h hn)

theorem Fresh.setMetadataETag (h : Fresh W rows m) (etag : Option ETag) :
    Fresh W rows { m with state := m.state.setMetadataETag etag } := by
  obtain ⟨hm, status, ht⟩ := h
  exact ⟨hm, status, ht.op (o := .setMetadataETag etag) trivial⟩

theorem fresh_of_load {s : State B} {tags : Key → Option ETag} (hstore : StoreInv W rows)
    (h : loadWorkflowStateOnce W H opts (readItem rows tags .metadata) (readItem rows tags) = ⟨some s, none⟩) :
    Fresh W rows ⟨s, some s.content, false⟩ := by
  rcases hstore with he | ⟨c, status, hst, hu, hopt⟩
  · have : loadWorkflowStateOnce W H opts (readItem rows tags .metadata) (readItem rows tags) = ⟨none, none⟩ :=
      load_of_empty (y := ⟨s, rows, "", false⟩) he
    rw [this] at h
    cases h
  · obtain ⟨inbox, hst', hl, -⟩ := stored_of_load hst.toDeclared hu.digests hopt (by rw [h])
    refine ⟨?_, status, ?_⟩
    · rw [hl.content hst']
      exact hst'
    · exact Tracked.load (y := ⟨s, rows, status, false⟩) hst.toDeclared hu hopt h

/-- What an accepted save leaves, when the state was fresh. -/
theorem Fresh.save {raw : List B} {req : List (TransactionalOperation B)} (h : Fresh W rows m)
    (hu : m.uncounted = false) (hraw : SignedBytes W (m.state.setMarshaledNewHistory raw))
    (hreq : (m.state.setMarshaledNewHistory raw).getSaveRequest W = .ok req) :
    StoreInv W (applyRequest rows req) ∧ (applyRequest rows req) .metadata ≠ none ∧
      Stored W (applyRequest rows req) m.state.content ∧
      Fresh W (applyRequest rows req)
        ⟨(m.state.setMarshaledNewHistory raw).resetChangeTracking, some m.state.content, m.uncounted⟩ := by
  obtain ⟨-, status, ht⟩ := h
  have hsave : Sys.save W raw ⟨m.state, rows, status, m.uncounted⟩ = .ok
      ⟨(m.state.setMarshaledNewHistory raw).resetChangeTracking, applyRequest rows req,
        if Sys.historyChanged ⟨m.state, rows, status, m.uncounted⟩ then getValue m.state.customStatus else status,
        m.uncounted⟩ := by
    simp only [Sys.save, hreq]
    rfl
  have ht' := ht.save hraw hsave
  have hst := ht.stored hu hraw hsave
  refine ⟨.inr ⟨_, _, hst, ht.synced.usable, ht'.optional⟩, ?_, hst, hst, _, ht'⟩
  rw [(saveEffect hreq rows).metadata]
  simp

theorem World.metadataItem_inv (w : World ι B) : HostInv W w.rows w.version ⟨none, .reading w.metadataItem⟩ := by
  cases hr : w.rows .metadata with
  | none => exact .inl (by rw [World.metadataItem, World.bulk, readItem_data, hr])
  | some b =>
    refine .inr ⟨w.version, ?_, Nat.le_refl _, fun _ => readItem_data _ _ _⟩
    simp [World.metadataItem, World.bulk, readItem, hr]

/-- A save that the store takes in an undisturbed run is of a fresh state. -/
theorem World.Inv.fresh {w : World ι B} {h : ι} (hi : w.Inv W) (hx : w.hosts h = .keep m)
    (hacc : w.accepts m.state.metadataETag = true) (hnone : m.state.metadataETag = none → w.rows .metadata = none) :
    Fresh W w.rows m := by
  have ht : TokenInv W w.rows w.version m := by
    have := hi.hosts h
    rwa [hx] at this
  unfold TokenInv at ht
  cases he : m.state.metadataETag with
  | none =>
    rw [he] at ht
    exact ht (hnone he)
  | some t =>
    rw [he] at ht hacc
    simp only [World.accepts, Bool.and_eq_true, beq_iff_eq] at hacc
    exact ht.2 hacc.2

theorem World.Inv.getBulk {w : World ι B} {h : ι} (hi : w.Inv W) (tags : Key → Option ETag) {item : StateItem B}
    (hx : w.hosts h = ⟨none, .reading item⟩) :
    HostInv W w.rows w.version (finishLoad (loadWorkflowStateOnce W H opts item (w.bulk tags))) := by
  have hitem : HostInv W w.rows w.version ⟨none, .reading item⟩ := hx ▸ hi.hosts h
  unfold finishLoad
  split
  · rename_i s hl
    change TokenInv W w.rows w.version _
    have htok : s.metadataETag = item.etag := loadWorkflowStateOnce_token (by rw [hl])
    rcases hitem with hn | ⟨t, ht, hle, hcur⟩
    · simp [loadWorkflowStateOnce, hn, readMetadata] at hl
    · unfold TokenInv
      simp only [htok, ht]
      refine ⟨hle, fun he => ?_⟩
      -- nothing was written since the load began, so it read one version of the rows
      have hrow : item.data = w.rows .metadata := hcur he
      have heq : item = w.bulk tags .metadata := by
        cases item with
        | mk data etag =>
          subst ht hrow
          unfold World.bulk readItem
          cases hr : w.rows .metadata with
          | none => rw [hr] at hl; simp [loadWorkflowStateOnce, readMetadata] at hl
          | some b => simp [he]
      rw [heq] at hl
      exact fresh_of_load hi.store hl
  · trivial
  · trivial

theorem World.Inv.refresh {w : World ι B} {h : ι} (hi : w.Inv W) {r : Read} {v : Nat} (hx : w.hosts h = ⟨some m, .refreshing v⟩)
    (hu : (Action.refresh r : Action B).Undisturbed w h) : HostInv W w.rows w.version (afterSave W w m r) := by
  have hinv : HostInv W w.rows w.version ⟨some m, .refreshing v⟩ := hx ▸ hi.hosts h
  obtain ⟨-, hrow, hfresh⟩ := hinv
  -- a state without a token cannot be saved over a row that exists
  have hlost : HostInv W w.rows w.version (.keep { m with state := m.state.setMetadataETag none }) :=
    fun hn => (hrow hn).elim
  cases r with
  | failed => trivial
  | noResponse => exact hlost
  | lagging =>
    simp only [afterSave, World.read]
    repeat' split
    · trivial
    · exact hlost
    · exact hlost
  | row =>
    have hv : w.version = v := hu v (by rw [hx])
    simp only [afterSave, World.read]
    split
    · split
      · trivial
      · exact hlost
    · obtain ⟨b, hb⟩ := Option.ne_none_iff_exists'.1 hrow
      have htag : w.metadataItem.etag = some w.version := by simp [World.metadataItem, World.bulk, readItem, hb]
      rw [htag]
      exact ⟨Nat.le_refl _, fun _ => (hfresh hv.symm).setMetadataETag _⟩

end Invariant

section Step
variable [DecidableEq ι] {W : Wire B} {H : ChainVerifier B} {opts : Options} {w w' : World ι B} {h : ι} {m : Cached B}

/-- Everything a step can do. -/
inductive NextCases (W : Wire B) (H : ChainVerifier B) (opts : Options) (w : World ι B) (h : ι) :
    Action B → World ι B → Prop where
  | getMetadata (r : Read) : NextCases W H opts w h (.getMetadata r) (w.set h (startLoad w r))
  | getBulk (tags : Key → Option ETag) (item : StateItem B) (hx : w.hosts h = ⟨none, .reading item⟩) :
      NextCases W H opts w h (.getBulk tags)
        (w.set h (finishLoad (loadWorkflowStateOnce W H opts item (w.bulk tags))))
  | create : NextCases W H opts w h .create (w.set h (.keep ⟨newState opts, none, false⟩))
  | op (o : StateOp B) (m : Cached B) (hx : w.hosts h = .keep m) : NextCases W H opts w h (.op o)
      (w.set h (.keep { m with state := o.run m.state, uncounted := o.uncounted m.uncounted }))
  | confirmCachedState (r : Read) (m : Cached B) (hx : w.hosts h = .keep m) :
      NextCases W H opts w h (.confirmCachedState r) (w.set h (confirmCached W w m r))
  | multi (raw : List B) (m : Cached B) (hx : w.hosts h = .keep m) :
      NextCases W H opts w h (.multi raw) (w.multi W h m raw)
  | refresh (r : Read) (v : Nat) (m : Cached B) (hx : w.hosts h = ⟨some m, .refreshing v⟩) :
      NextCases W H opts w h (.refresh r) (w.set h (afterSave W w m r))
  | drop (a : Action B) : NextCases W H opts w h a (w.set h .dropped)

theorem next_cases {a : Action B} (hn : w.next W H opts h a = some w') : NextCases W H opts w h a w' := by
  have hx : w.hosts h = ⟨(w.hosts h).cached, (w.hosts h).phase⟩ := rfl
  unfold World.next at hn
  split at hn
  case h_1 r _ _ => cases hn; exact .getMetadata r
  case h_2 tags item hp hc => cases hn; exact .getBulk tags item (by rw [hx, hp, hc])
  case h_3 => cases hn; exact .create
  case h_4 o m hp hc => cases hn; exact .op o m (by rw [hx, hp, hc]; rfl)
  case h_5 r m hp hc => cases hn; exact .confirmCachedState r m (by rw [hx, hp, hc]; rfl)
  case h_6 raw m hp hc => cases hn; exact .multi raw m (by rw [hx, hp, hc]; rfl)
  case h_7 r v m hp hc => cases hn; exact .refresh r v m (by rw [hx, hp, hc])
  case h_8 => cases hn; exact .drop _
  case h_9 => cases hn; exact .drop _
  case h_10 => cases hn

/-- A step that leaves the rows alone concerns only its own host. -/
theorem World.Inv.set (hi : w.Inv W) {x : Host B} (hx : HostInv W w.rows w.version x) : (w.set h x).Inv W where
  store := hi.store
  hosts h' := by
    by_cases he : h' = h
    · subst he
      simpa [World.set] using hx
    · simpa [World.set, he] using hi.hosts h'

/-- What becomes of a save: it is given up, or it was accepted. -/
theorem multi_cases (w : World ι B) (h : ι) (m : Cached B) (raw : List B) :
    w.multi W h m raw = w.set h .dropped ∨
      ∃ req, (m.state.setMarshaledNewHistory raw).getSaveRequest W = .ok req ∧ w.accepts m.state.metadataETag = true ∧
        w.multi W h m raw =
          { rows := applyRequest w.rows req
            version := w.version + 1
            hosts := Function.update w.hosts h ⟨some ⟨(m.state.setMarshaledNewHistory raw).resetChangeTracking,
              some m.state.content, m.uncounted⟩, .refreshing (w.version + 1)⟩ } := by
  cases hreq : (m.state.setMarshaledNewHistory raw).getSaveRequest W with
  | error e => exact .inl (by simp only [World.multi, hreq])
  | ok req =>
    by_cases hacc : w.accepts (m.state.setMarshaledNewHistory raw).metadataETag = true
    · refine .inr ⟨req, rfl, hacc, ?_⟩
      simp only [World.multi, hreq, hacc]
      rfl
    · exact .inl (by simp only [World.multi, hreq, if_neg hacc])

theorem World.Inv.multi (hi : w.Inv W) {raw : List B} (hx : w.hosts h = .keep m)
    (hp : (Action.multi raw).Permitted W w h) (hu : (Action.multi raw).Undisturbed w h) :
    (w.multi W h m raw).Inv W := by
  have hc : (w.hosts h).cached = some m := by rw [hx]; rfl
  rcases multi_cases w h m raw with he | ⟨req, hreq, hacc, he⟩
  · rw [he]
    exact hi.set trivial
  · obtain ⟨hnone, hcount⟩ := hu m hc
    obtain ⟨hstore, hrow, hst, hfresh⟩ := (hi.fresh hx hacc hnone).save hcount (hp m hc) hreq
    rw [he]
    refine ⟨hstore, fun h' => ?_⟩
    by_cases heq : h' = h
    · subst heq
      simp only [Function.update_self]
      exact ⟨Nat.le_refl _, hrow, fun _ => hfresh⟩
    · simp only [Function.update_of_ne heq]
      exact (hi.hosts h').bump hrow

theorem World.Inv.step (hi : w.Inv W) (hs : World.Step W H opts Action.Undisturbed w w') : w'.Inv W := by
  obtain ⟨⟨h, a⟩, ⟨hp, hu⟩, hn⟩ := hs
  cases next_cases hn with
  | getMetadata r =>
    refine hi.set ?_
    cases r with
    | failed => trivial
    | noResponse | lagging => exact .inl rfl
    | row => exact w.metadataItem_inv
  | getBulk tags item hx => exact hi.set (hi.getBulk tags hx)
  | create =>
    refine hi.set fun hn => ?_
    have he : w.rows = fun _ => none := funext (hi.store.empty_of_metadata hn)
    refine ⟨congrFun he, "", ?_⟩
    rw [he]
    exact .new W opts
  | op o m hx =>
    have ht : HostInv W w.rows w.version (.keep m) := hx ▸ hi.hosts h
    exact hi.set (TokenInv.op ht hp.1 hp.2)
  | confirmCachedState r m hx =>
    have ht : HostInv W w.rows w.version (.keep m) := hx ▸ hi.hosts h
    refine hi.set ?_
    unfold confirmCached
    repeat' split
    all_goals first | exact ht | trivial
  | multi raw m hx => exact hi.multi hx hp hu
  | refresh r v m hx => exact hi.set (hi.refresh hx hu)
  | drop a => exact hi.set trivial

theorem World.Reached.inv (hr : World.Reached W H opts Action.Undisturbed w) : w.Inv W := by
  refine Reachable.invariant (World.Inv W) ?_ (fun _ _ hi hs => hi.step hs) hr
  rintro w ⟨hh, hs⟩
  refine ⟨hs, fun h => ?_⟩
  rw [hh h]
  trivial

/-- No lost update: in a run in which no host saves between another's save and the read of
its new token, in which a save without a token meets no metadata row, and in which no save is
taken with an uncounted inbox event, every save the store takes was made from the rows the
store held just before, and leaves exactly the saved state in it. -/
theorem no_lost_update (hr : World.Reached W H opts Action.Undisturbed w) {raw : List B}
    (hm : (w.hosts h).cached = some m) (hp : (Action.multi raw).Permitted W w h)
    (hu : (Action.multi raw).Undisturbed w h) (hn : w.next W H opts h (.multi raw) = some w')
    (hacc : w'.version ≠ w.version) : Matches W w.rows m.base ∧ Stored W w'.rows m.state.content := by
  have hi := hr.inv
  cases next_cases hn with
  | drop => exact (hacc rfl).elim
  | multi _ m' hx =>
    obtain rfl : m' = m := by
      rw [hx] at hm
      exact Option.some.inj hm
    rcases multi_cases w h m' raw with he | ⟨req, hreq, haccepts, he⟩
    · rw [he] at hacc
      exact (hacc rfl).elim
    · obtain ⟨hnone, hcount⟩ := hu m' hm
      have hfresh := hi.fresh hx haccepts hnone
      rw [he]
      exact ⟨hfresh.1, (hfresh.save hcount (hp m' hm) hreq).2.2.1⟩

end Step

/-! ## Runs on the plain format -/

theorem permitted_addToInbox (W : Wire B) (w : World ι B) (h : ι) (e : HistoryEvent) :
    (Action.op (.addToInbox e) : Action B).Permitted W w h := ⟨trivial, trivial⟩

theorem permitted_multi_nil (W : Wire B) (w : World ι B) (h : ι) : (Action.multi [] : Action B).Permitted W w h :=
  fun _ _ => signedBytes_nil W _

def raised (name : String) : HistoryEvent := ⟨-1, none, none, .eventRaised name none⟩

abbrev plainNext (w : World Bool Plain) (l : Bool × Action Plain) : Option (World Bool Plain) :=
  w.next plainWire trusting unsignedOptions l.1 l.2

/-- An instance with one saved event that no host has in memory. -/
def savedWorld : World Bool Plain :=
  ⟨((firstTurn.save plainWire []).toOption.getD firstTurn).rows, 1, fun _ => .dropped⟩

theorem savedWorld_start : World.Start plainWire savedWorld := by
  have ht := (reached_firstTurn fun _ => True).tracked
  have hs : firstTurn.save plainWire [] = .ok ((firstTurn.save plainWire []).toOption.getD firstTurn) := rfl
  have hopt := (ht.save (signedBytes_nil _ _) hs).optional
  exact ⟨fun _ => rfl, .inr ⟨_, _, ht.stored rfl (signedBytes_nil _ _) hs, ht.synced.usable, hopt⟩⟩

/-- Both hosts load the instance and the first one adds an event. -/
def bothLoad : List (Bool × Action Plain) :=
  [(false, .getMetadata .row), (false, .getBulk fun _ => none), (true, .getMetadata .row), (true, .getBulk fun _ => none),
    (false, .op (.addToInbox (raised "own")))]

theorem permitted_bothLoad : ∀ l ∈ bothLoad, ∀ w : World Bool Plain,
    l.2.Permitted plainWire w l.1 ∧ l.2.Undisturbed w l.1 := by
  intro l hl w
  simp only [bothLoad, List.mem_cons, List.not_mem_nil, or_false] at hl
  rcases hl with rfl | rfl | rfl | rfl | rfl
  all_goals first | exact ⟨permitted_addToInbox _ _ _ _, trivial⟩ | exact ⟨trivial, trivial⟩

theorem bothLoad_no_lost_update : ∃ w m w',
    World.Reached plainWire trusting unsignedOptions Action.Undisturbed w ∧ (w.hosts false).cached = some m ∧
      plainNext w (false, .multi []) = some w' ∧ Matches plainWire w.rows m.base ∧
      Stored plainWire w'.rows m.state.content := by
  have hr : World.Reached plainWire trusting unsignedOptions Action.Undisturbed
      ((runFrom plainNext savedWorld bothLoad).getD savedWorld) :=
    reachable_of_runFrom (.start savedWorld_start) permitted_bothLoad rfl
  have hu : (Action.multi []).Undisturbed ((runFrom plainNext savedWorld bothLoad).getD savedWorld) false := by
    intro m hm
    cases hm
    exact ⟨nofun, rfl⟩
  refine ⟨_, _, _, hr, rfl, rfl, ?_⟩
  exact no_lost_update hr rfl (permitted_multi_nil _ _ _) hu rfl (by decide)

/-- No instance and no host that has it in memory. -/
def emptyWorld : World Bool Plain := ⟨fun _ => none, 0, fun _ => .dropped⟩

/-- The first host creates the instance; before it reads its new token, the second host loads
the instance, adds an event and saves. The first host then takes the token of that save for
its own. -/
def overtaken : List (Bool × Action Plain) :=
  [(false, .getMetadata .row), (false, .getBulk fun _ => none), (false, .create), (false, .op (.addToInbox startedEvent)),
    (false, .multi []), (true, .getMetadata .row), (true, .getBulk fun _ => none),
    (true, .op (.addToInbox (raised "peer"))), (true, .multi []), (false, .refresh .row),
    (false, .op (.addToInbox (raised "own")))]

theorem permitted_overtaken : ∀ l ∈ overtaken, ∀ w : World Bool Plain,
    l.2.Permitted plainWire w l.1 ∧ True := by
  intro l hl w
  refine ⟨?_, trivial⟩
  simp only [overtaken, List.mem_cons, List.not_mem_nil, or_false] at hl
  rcases hl with rfl | rfl | rfl | rfl | rfl | rfl | rfl | rfl | rfl | rfl | rfl
  all_goals first | exact permitted_addToInbox _ _ _ _ | exact permitted_multi_nil _ _ _ | trivial

/-- A host that reads its token back too late overwrites the event a peer has saved. -/
theorem peer_event_overwritten : ∃ w m w',
    World.Reached plainWire trusting unsignedOptions (fun _ _ _ => True) w ∧ (w.hosts false).cached = some m ∧
      (Action.multi []).Permitted plainWire w false ∧ plainNext w (false, .multi []) = some w' ∧
      w'.version ≠ w.version ∧ ¬ Matches plainWire w.rows m.base ∧
      w.rows (.entry .inbox 1) = some (.event (raised "peer")) ∧
      w'.rows (.entry .inbox 1) = some (.event (raised "own")) := by
  have h0 : World.Reached plainWire trusting unsignedOptions (fun _ _ _ => True) emptyWorld :=
    .start ⟨fun _ => rfl, .inl fun _ => rfl⟩
  refine ⟨_, _, _, reachable_of_runFrom h0 permitted_overtaken rfl, rfl, permitted_multi_nil _ _ _, rfl, by decide, ?_,
    rfl, rfl⟩
  intro hm
  have hmd := hm.metadata
  cases hmd

end Dapr.Workflow
