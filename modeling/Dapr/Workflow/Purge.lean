import Dapr.Workflow.Fidelity
/-!
# Purge

A purge deletes the rows of an instance by the lists of its state and by four flags that
say which optional rows exist. `Flags` is what makes the flags right on a store that returns
a version token for every row; together with the tracking of the lists it makes a purge
complete.
-/

namespace Dapr.Workflow

open Lib.Rows Lib.Runs

variable {B : Type}

/-- Each flag says whether its optional row exists. -/
structure Flags (rows : Rows B) (s : State B) : Prop where
  customStatus : s.customStatusPersisted = (rows .customStatus).isSome
  propagatedHistory : s.propagatedHistoryPersisted = (rows .propagatedHistory).isSome
  parentNotify : s.parentNotifyPersisted = (rows .parentNotify).isSome
  creationInput : s.creationInputPersisted = (rows .creationInput).isSome

variable {rows : Rows B} {s : State B} {W : Wire B} {tags : Key → Option ETag} {k : Key}

/-- Only saves and loads move the flags. -/
theorem Flags.op (h : Flags rows s) (o : StateOp B) : Flags rows (o.run s) := by
  cases o with
  | applyRuntimeStateChanges rs =>
    simp only [StateOp.run, State.applyRuntimeStateChanges]
    split <;> exact { h with }
  | addExternalCert digest certDER =>
    simp only [StateOp.run, State.addExternalCert]
    repeat' split
    all_goals exact { h with }
  | fromWorkflowState ws =>
    have hin : Flags rows (ws.inbox.foldl State.addToInbox s.reset) :=
      List.foldlRecOn ws.inbox _ { h with } fun t ht e _ => { ht with }
    have hhist : Flags rows (ws.history.foldl State.addToHistory (ws.inbox.foldl State.addToInbox s.reset)) :=
      List.foldlRecOn ws.history _ hin fun t ht e _ => { ht with }
    exact { hhist with }
  | keepCreationInput start =>
    simp only [StateOp.run, State.keepCreationInputOf]
    split <;> exact { h with }
  | clearCreationInput =>
    simp only [StateOp.run, State.clearCreationInput]
    split <;> exact { h with }
  | _ => exact { h with }

/-- A save moves each flag exactly as it writes the row. -/
theorem Flags.save {rows' : Rows B} (h : Flags rows s) (he : SaveEffect W s rows rows') :
    Flags rows' s.resetChangeTracking := by
  refine ⟨?_, ?_, ?_, ?_⟩
  · rw [he.customStatus]
    cases hw : s.writesCustomStatus <;> simp [State.resetChangeTracking, hw, h.customStatus]
  · rw [he.propagatedHistory]
    cases hc : s.incomingHistoryChanged <;> simp [State.resetChangeTracking, hc, h.propagatedHistory]
  · rw [he.parentNotify]
    cases hc : s.parentNotifyChanged with
    | false => simp [State.resetChangeTracking, hc, h.parentNotify]
    | true =>
      cases hp : s.parentNotifyPending with
      | true => simp [State.resetChangeTracking, hc, hp]
      | false =>
        -- nothing to delete when the row is not there
        cases hf : s.parentNotifyPersisted with
        | true => simp [State.resetChangeTracking, hc, hp]
        | false => simp [State.resetChangeTracking, hp, ← h.parentNotify, hf]
  · rw [he.creationInput]
    cases hc : s.creationInputChanged with
    | false => simp [State.resetChangeTracking, hc, h.creationInput]
    | true =>
      cases hi : s.creationInput with
      | some v => simp [State.resetChangeTracking, hc, hi]
      | none =>
        cases hf : s.creationInputPersisted with
        | true => simp [State.resetChangeTracking, hc, hi]
        | false => simp [State.resetChangeTracking, hi, ← h.creationInput, hf]

/-- The store returns a version token for every row. -/
def AllTagged (tags : Key → Option ETag) : Prop := ∀ k, (tags k).isSome

theorem readItem_etag_isSome (ht : AllTagged tags) (k : Key) :
    (readItem rows tags k).etag.isSome = (rows k).isSome := by
  unfold readItem
  cases hr : rows k with
  | none => rfl
  | some b => simpa using ht k

theorem readItem_isPresent (ht : AllTagged tags) (W : Wire B) (k : Key) :
    (readItem rows tags k).isPresent W = (rows k).isSome := by
  rw [StateItem.isPresent, readItem_etag_isSome ht, readItem_data]
  cases rows k <;> simp

theorem Loaded.flags {opts : Options} {etag : Option ETag} {c : Content} {status : String}
    (h : Loaded W rows tags opts etag c status s) (ht : AllTagged tags) : Flags rows s :=
  ⟨by rw [h.customStatusPersisted, readItem_etag_isSome ht],
    by rw [h.propagatedHistoryPersisted, readItem_etag_isSome ht],
    by rw [h.parentNotifyPersisted, readItem_isPresent ht],
    by rw [h.creationInputPersisted, readItem_isPresent ht]⟩

/-! ## The purge request -/

theorem addPurgeStateOperations_write (f : Family) (count : Nat) :
    (State.addPurgeStateOperations f count : List (TransactionalOperation B)).map TransactionalOperation.write =
      delsFrom (Key.entry f) 0 count := by
  rw [State.addPurgeStateOperations, List.range_eq_range', write_deletes]

theorem addPurgeStateOperations_group (f : Family) (count : Nat) :
    ∀ w ∈ (State.addPurgeStateOperations f count : List (TransactionalOperation B)).map TransactionalOperation.write,
      w.key.group = .entry f 0 := by
  intro w hw
  rw [addPurgeStateOperations_write] at hw
  obtain ⟨j, hj⟩ := key_of_mem_delsFrom hw
  rw [hj, Key.group]

theorem purge_entry {f : Family} {count : Nat} (h : Bounded (fun i => rows (.entry f i)) count 0) (i : Nat) :
    applyRequest rows (State.addPurgeStateOperations f count) (.entry f i) = none := by
  rw [applyRequest, addPurgeStateOperations_write, applyAll_delsFrom (entry_injective f)]
  split
  · rfl
  · exact h i (by omega) (Nat.zero_le i)

theorem optionalDelete_group (hk : k.group = k) (flag : Bool) :
    ∀ w ∈ (if flag then [(.delete k : TransactionalOperation B)] else []).map TransactionalOperation.write,
      w.key.group = k := by
  cases flag <;> simp [hk]

/-- The delete behind a flag leaves no row if the flag is right. -/
theorem purge_optional {flag : Bool} (h : flag = (rows k).isSome) :
    applyRequest rows (if flag then [.delete k] else []) k = none := by
  cases flag with
  | true => simp [applyRequest]
  | false => simpa [applyRequest] using h.symm

/-- With right flags and no row beyond the lists, a purge deletes every row. -/
theorem purge_deletes (hf : Flags rows s) (hi : Bounded (fun i => rows (.entry .inbox i)) s.inbox.length 0)
    (hh : Bounded (fun i => rows (.entry .history i)) s.history.length 0)
    (hc : Bounded (fun i => rows (.entry .sigcert i)) s.signingCertificates.length 0)
    (hx : Bounded (fun i => rows (.entry .extSigCert i)) s.externalSigningCertificates.length 0)
    (hg : Bounded (fun i => rows (.entry .signature i)) s.signatures.length 0) (k : Key) :
    applyRequest rows s.getPurgeRequest k = none := by
  let optional (k : Key) (flag : Bool) : List (TransactionalOperation B) := if flag then [.delete k] else []
  let ops : Key → List (TransactionalOperation B)
    | .entry .inbox _ => State.addPurgeStateOperations .inbox s.inbox.length
    | .entry .history _ => State.addPurgeStateOperations .history s.history.length
    | .entry .sigcert _ => State.addPurgeStateOperations .sigcert s.signingCertificates.length
    | .entry .extSigCert _ => State.addPurgeStateOperations .extSigCert s.externalSigningCertificates.length
    | .entry .signature _ => State.addPurgeStateOperations .signature s.signatures.length
    | .customStatus => optional .customStatus s.customStatusPersisted
    | .propagatedHistory => optional .propagatedHistory s.propagatedHistoryPersisted
    | .parentNotify => optional .parentNotify s.parentNotifyPersisted
    | .creationInput => optional .creationInput s.creationInputPersisted
    | .metadata => [.delete .metadata]
  have hin : ∀ g ∈ Key.groups, ∀ w ∈ (ops g).map TransactionalOperation.write, w.key.group = g := by
    have hfamily := fun f count => addPurgeStateOperations_group (B := B) f count
    simp only [Key.groups, List.forall_mem_cons]
    refine ⟨hfamily _ _, hfamily _ _, hfamily _ _, hfamily _ _, hfamily _ _, optionalDelete_group rfl _,
      optionalDelete_group rfl _, optionalDelete_group rfl _, optionalDelete_group rfl _, ?_⟩
    simp [ops, Key.group]
  have hreq : s.getPurgeRequest = Key.groups.flatMap ops := by
    simp [Key.groups, ops, optional, State.getPurgeRequest]
  rw [hreq, applyRequest_parts hin]
  cases k with
  | entry f i =>
    cases f with
    | inbox => exact purge_entry hi i
    | history => exact purge_entry hh i
    | sigcert => exact purge_entry hc i
    | extSigCert => exact purge_entry hx i
    | signature => exact purge_entry hg i
  | customStatus => exact purge_optional hf.customStatus
  | propagatedHistory => exact purge_optional hf.propagatedHistory
  | parentNotify => exact purge_optional hf.parentNotify
  | creationInput => exact purge_optional hf.creationInput
  | metadata => simp [ops, Key.group, applyRequest]

/-! ## Purge completeness -/

section
variable {H : ChainVerifier B} {opts : Options} {y : Sys B}

/-- A state in step with its rows and with nothing left to save is purged completely. -/
theorem purge_of_synced (h : Synced W rows s) (hf : Flags rows s) (hp : s.NothingPending) (k : Key) :
    applyRequest rows s.getPurgeRequest k = none := by
  have hin : Bounded (fun i => rows (.entry .inbox i)) s.inbox.length 0 := by
    have := h.inbox
    rw [hp.inboxRemoved] at this
    exact this.mono (Nat.le_trans s.length_persistableInbox_le (Nat.le_max_left _ _)) (Nat.zero_le _)
  refine purge_deletes hf hin ?_ ?_ ?_ ?_ k
  · exact hp.historyRemoved ▸ h.history.bounded
  · exact hp.signingCertificatesRemoved ▸ h.sigcert.bounded
  · exact hp.externalSigningCertificatesRemoved ▸ h.extSigCert.bounded
  · rw [h.rawSignatures.length_eq]
    exact hp.signaturesRemoved ▸ h.signature.bounded

/-- A loaded state has the flags and the tracking of its rows. -/
theorem Tracked.load_flags (h : Tracked W y) {H' : ChainVerifier B} {opts' : Options} (ht : AllTagged tags)
    (hl : (y.load W H' opts' tags).state = some s) : Synced W y.rows s ∧ Flags y.rows s ∧ s.NothingPending := by
  rcases h.store with he | ⟨c, hd, hu⟩
  · rw [load_of_empty he] at hl
    cases hl
  · obtain ⟨inbox, hst, hloaded, -⟩ := stored_of_load hd hu.digests h.optional hl
    exact ⟨hloaded.synced hst ⟨hu.digests, hu.generation⟩, hloaded.flags ht, hloaded.pending⟩

theorem Reached.flags (h : Reached W H opts AllTagged y) : Tracked W y ∧ Flags y.rows y.state := by
  refine Reachable.invariant (fun y => Tracked W y ∧ Flags y.rows y.state) ?_ ?_ h
  · intro y hs
    refine ⟨Reached.tracked (.start hs), ?_⟩
    cases hs with
    | new => exact ⟨rfl, rfl, rfl, rfl⟩
    | loaded tags ht hst hu hopt hl =>
      obtain ⟨inbox, -, hloaded, -⟩ := stored_of_load hst.toDeclared hu.digests hopt (by rw [← Sys.load, hl])
      exact hloaded.flags ht
  · rintro y y' ⟨htr, hf⟩ hs
    refine ⟨htr.step hs, ?_⟩
    cases hs with
    | op o ho => exact hf.op o
    | save raw hraw hsave =>
      obtain ⟨req, hreq, rfl⟩ := Sys.save_ok hsave
      exact Flags.save { hf with } (saveEffect hreq y.rows)
    | load tags ht hl => exact (htr.load_flags ht (by rw [hl])).2.1

/-- Purge completeness: on a store that returns a version token for every row, after any run
of operations and saves, the purge of a state with no pending change deletes every row of
the instance, and so does the purge of a state just loaded, whether or not it was accepted. -/
theorem purge_complete (hr : Reached W H opts AllTagged y) :
    (y.state.NothingPending → ∀ k, applyRequest y.rows y.state.getPurgeRequest k = none) ∧
    ∀ H' opts' tags s, AllTagged tags → (y.load W H' opts' tags).state = some s →
      ∀ k, applyRequest y.rows s.getPurgeRequest k = none := by
  obtain ⟨ht, hf⟩ := hr.flags
  refine ⟨fun hp => purge_of_synced ht.synced hf hp, fun H' opts' tags s htag hl => ?_⟩
  obtain ⟨hs, hfl, hp⟩ := ht.load_flags htag hl
  exact purge_of_synced hs hfl hp
end

def savedTurn : Sys Plain := (firstTurn.save plainWire []).toOption.getD firstTurn

/-- The next turn: an event has come in, the history grows, and the parent is to be told. -/
def notifyingTurn : Sys Plain :=
  ((savedTurn.op (.addToInbox startedEvent)).op (.addToHistory startedEvent)).op (.setParentNotifyPending true)

theorem notifyingTurn_purge_complete : ∃ y, notifyingTurn.save plainWire [] = .ok y ∧
    (∀ k ∈ [.metadata, .parentNotify, .entry .inbox 0, .entry .history 0, .entry .history 1], (y.rows k).isSome) ∧
    ∀ k, applyRequest y.rows y.state.getPurgeRequest k = none := by
  have hsaved : Reached plainWire trusting unsignedOptions AllTagged savedTurn :=
    .step (reached_firstTurn _) (.save [] (signedBytes_nil _ _) rfl)
  have hturn : Reached plainWire trusting unsignedOptions AllTagged notifyingTurn :=
    .step (.step (.step hsaved (.op (.addToInbox startedEvent) trivial)) (.op (.addToHistory startedEvent) trivial))
      (.op _ trivial)
  have hr := hturn.step (.save [] (signedBytes_nil _ _) rfl)
  exact ⟨_, rfl, by decide, (purge_complete hr).1 ⟨rfl, rfl, rfl, rfl, rfl, rfl, rfl, rfl, rfl, rfl⟩⟩

end Dapr.Workflow
