import Dapr.Workflow.Tracking
/-!
# One instance over many saves and loads

`Sys` is an instance as one host sees it: the state in memory and the rows in the store. Its
steps are the operations on the state, saves, and reloads. Two ghost fields carry what the
statements need: `status` is the custom status of the last save that changed the history,
and `uncounted` says that the inbox holds an event its counter does not know of, or counts
a timer that is never written.
-/

namespace Dapr.Workflow

open Lib.Rows Lib.Runs

variable {B : Type}

/-- A state and the rows of the store. -/
structure Sys (B : Type) where
  state : State B
  rows : Rows B
  status : String
  uncounted : Bool

def StateOp.uncounted : StateOp B → Bool → Bool
  | .addToInbox e, u => u || e.isTimerFired
  | .appendInbox e, u => u || !e.isTimerFired
  | .clearInbox, _ => false
  | .reset, _ => false
  | .fromWorkflowState ws, _ => ws.inbox.any HistoryEvent.isTimerFired
  | _, u => u

namespace Sys

def op (o : StateOp B) (y : Sys B) : Sys B :=
  { y with state := o.run y.state, uncounted := o.uncounted y.uncounted }

/-- A save changes the history when events were added to it or removed from it. -/
def historyChanged (y : Sys B) : Bool :=
  y.state.historyAddedCount > 0 || y.state.historyRemovedCount > 0

/-- One save: the request is applied to the store and the change tracking starts over. `raw`
are the bytes the signer made of the new events, if there is a signer. -/
def save (W : Wire B) (raw : List B) (y : Sys B) : Except SaveError (Sys B) :=
  let s := y.state.setMarshaledNewHistory raw
  (s.getSaveRequest W).map fun req =>
    { y with
      state := s.resetChangeTracking
      rows := applyRequest y.rows req
      status := if y.historyChanged then getValue s.customStatus else y.status }

/-- A load of the rows as they are, on a store that returns the version tokens `tags`. -/
def load (W : Wire B) (H : ChainVerifier B) (opts : Options) (tags : Key → Option ETag) (y : Sys B) : LoadResult B :=
  loadWorkflowStateOnce W H opts (readItem y.rows tags .metadata) (readItem y.rows tags)

end Sys

/-- The steps of an instance on a store whose version tokens satisfy `Tags`. -/
inductive Step (W : Wire B) (H : ChainVerifier B) (opts : Options) (Tags : (Key → Option ETag) → Prop) :
    Sys B → Sys B → Prop where
  | op {y : Sys B} (o : StateOp B) (ho : o.Permitted W) : Step W H opts Tags y (y.op o)
  | save {y y' : Sys B} (raw : List B) (hraw : SignedBytes W (y.state.setMarshaledNewHistory raw))
      (h : y.save W raw = .ok y') : Step W H opts Tags y y'
  | load {y : Sys B} {s : State B} (tags : Key → Option ETag) (ht : Tags tags)
      (h : y.load W H opts tags = ⟨some s, none⟩) : Step W H opts Tags y { y with state := s, uncounted := false }

/-- A run starts with a new instance, or with one loaded from rows in good order. -/
inductive Start (W : Wire B) (H : ChainVerifier B) (opts : Options) (Tags : (Key → Option ETag) → Prop) :
    Sys B → Prop where
  | new : Start W H opts Tags ⟨newState opts, fun _ => none, "", false⟩
  | loaded {y : Sys B} {s : State B} {c : Content} (tags : Key → Option ETag) (ht : Tags tags)
      (hst : Stored W y.rows c) (hu : c.Usable W) (hopt : OptionalRows W y.rows y.status)
      (h : y.load W H opts tags = ⟨some s, none⟩) : Start W H opts Tags { y with state := s, uncounted := false }

/-- What operations and saves lead to. -/
def Reached (W : Wire B) (H : ChainVerifier B) (opts : Options) (Tags : (Key → Option ETag) → Prop) (y : Sys B) : Prop :=
  Reachable (Start W H opts Tags) (Step W H opts Tags) y

/-! ## What every run keeps -/

/-- The inbox counters are exact. -/
def InboxTracks (W : Wire B) (rows : Rows B) (s : State B) : Prop :=
  Tracks (Decodes W.event.unmarshal) (fun i => rows (.entry .inbox i)) s.persistableInbox
    s.inboxAddedCount s.inboxRemovedCount

/-- The counters of the state lead from the stored rows to its content. -/
structure Tracked (W : Wire B) (y : Sys B) : Prop where
  synced : Synced W y.rows y.state
  inbox : y.uncounted = false → InboxTracks W y.rows y.state
  optional : OptionalRows W y.rows y.status
  /-- A status that the next save need not write is the one in the store. -/
  status : y.state.customStatusPersisted = true → y.state.customStatusChanged = false →
    getValue y.state.customStatus = y.status
  store : (∀ k, y.rows k = none) ∨ ∃ c, Declared W y.rows c ∧ c.Usable W

variable {W : Wire B} {rows : Rows B} {s : State B} {tags : Key → Option ETag} {y' : Sys B}

theorem InboxTracks.addAll (es : List HistoryEvent) (h : InboxTracks W rows s)
    (hes : es.any HistoryEvent.isTimerFired = false) : InboxTracks W rows (es.foldl State.addToInbox s) := by
  induction es generalizing s with
  | nil => exact h
  | cons e es ih =>
    simp only [List.any_cons, Bool.or_eq_false_iff] at hes
    refine ih ?_ hes.2
    have := h.push e
    rwa [InboxTracks, State.persistableInbox_addToInbox, List.filter_cons_of_pos (by simp [hes.1])]

theorem foldl_addToHistory_inbox (es : List HistoryEvent) (s : State B) :
    (es.foldl State.addToHistory s).persistableInbox = s.persistableInbox ∧
      (es.foldl State.addToHistory s).inboxAddedCount = s.inboxAddedCount ∧
      (es.foldl State.addToHistory s).inboxRemovedCount = s.inboxRemovedCount := by
  induction es generalizing s with
  | nil => exact ⟨rfl, rfl, rfl⟩
  | cons e es ih => exact ih (s.addToHistory e)

/-- The inbox counters stay exact, or become so again when the inbox is cleared. -/
theorem inboxTracks_op {u : Bool} (h : Synced W rows s) (hin : u = false → InboxTracks W rows s) (o : StateOp B)
    (ho : o.uncounted u = false) : InboxTracks W rows (o.run s) := by
  have hclear : ∀ r, s.inboxRemovedCount ≤ r → s.persistableInbox.length ≤ r →
      Tracks (Decodes W.event.unmarshal) (fun i => rows (.entry .inbox i)) [] 0 r := fun r => h.inbox.clear
  have hreset : InboxTracks W rows s.reset :=
    hclear _ (Nat.le_add_right _ _) (Nat.le_trans s.length_persistableInbox_le (Nat.le_add_left _ _))
  cases o with
  | addToInbox e =>
    simp only [StateOp.uncounted, Bool.or_eq_false_iff] at ho
    exact (hin ho.1).addAll [e] (by simp [ho.2])
  | appendInbox e =>
    simp only [StateOp.uncounted, Bool.or_eq_false_iff] at ho
    have := hin ho.1
    rwa [InboxTracks, StateOp.run, State.persistableInbox_appendInbox, List.filter_cons_of_neg (by simp [ho.2]),
      List.filter_nil, List.append_nil]
  | clearInbox => exact hclear _ (Nat.le_add_right _ _) (Nat.le_add_left _ _)
  | reset => exact hreset
  | fromWorkflowState ws =>
    have := hreset.addAll ws.inbox ho
    obtain ⟨h1, h2, h3⟩ := foldl_addToHistory_inbox ws.history (ws.inbox.foldl State.addToInbox s.reset)
    rwa [InboxTracks, ← h1, ← h2, ← h3] at this
  | applyRuntimeStateChanges rs =>
    have := hin ho
    simp only [StateOp.run, State.applyRuntimeStateChanges]
    split <;> exact this
  | addExternalCert digest certDER =>
    have := hin ho
    simp only [StateOp.run, State.addExternalCert]
    repeat' split
    all_goals exact this
  | keepCreationInput start =>
    have := hin ho
    simp only [StateOp.run, State.keepCreationInputOf]
    split <;> exact this
  | clearCreationInput =>
    have := hin ho
    simp only [StateOp.run, State.clearCreationInput]
    split <;> exact this
  | _ => exact hin ho

theorem status_op {status : String}
    (h : s.customStatusPersisted = true → s.customStatusChanged = false → getValue s.customStatus = status)
    (o : StateOp B) : (o.run s).customStatusPersisted = true → (o.run s).customStatusChanged = false →
      getValue (o.run s).customStatus = status := by
  cases o with
  | applyRuntimeStateChanges rs =>
    -- the drop of the history does not touch the status
    have hdrop : ∀ t : State B, t = s ∨ t = s.dropHistory → t.customStatusPersisted = s.customStatusPersisted ∧
        t.customStatusChanged = s.customStatusChanged ∧ t.customStatus = s.customStatus := by
      rintro t (rfl | rfl) <;> exact ⟨rfl, rfl, rfl⟩
    simp only [StateOp.run, State.applyRuntimeStateChanges]
    obtain ⟨h1, h2, h3⟩ := hdrop (if rs.continuedAsNew = true then s.dropHistory else s) (by split <;> simp)
    intro hp hc
    simp only [Bool.or_eq_false_iff, bne_eq_false_iff_eq] at hc
    rw [← hc.2, h3]
    exact h (h1 ▸ hp) (h2 ▸ hc.1)
  | reset =>
    intro hp hc
    simp only [StateOp.run, State.reset, Bool.or_eq_false_iff, bne_eq_false_iff_eq] at hp hc ⊢
    rw [← h hp hc.1, hc.2]
    rfl
  | fromWorkflowState ws => intro _ hc; cases hc
  | addExternalCert digest certDER =>
    simp only [StateOp.run, State.addExternalCert]
    repeat' split
    all_goals exact h
  | keepCreationInput start =>
    simp only [StateOp.run, State.keepCreationInputOf]
    split <;> exact h
  | clearCreationInput =>
    simp only [StateOp.run, State.clearCreationInput]
    split <;> exact h
  | _ => exact h

namespace Tracked

variable {H : ChainVerifier B} {opts : Options} {Tags : (Key → Option ETag) → Prop} {y : Sys B}

theorem new (W : Wire B) (opts : Options) : Tracked W ⟨newState opts, fun _ => none, "", false⟩ where
  synced :=
    { inboxRows := by intro i b h; cases h
      inbox := fun _ _ _ => rfl
      history := (Holds.of_empty fun _ => rfl).tracks
      sigcert := (Holds.of_empty fun _ => rfl).tracks
      extSigCert := (Holds.of_empty fun _ => rfl).tracks
      signature := (Holds.of_empty fun _ => rfl).tracks
      rawSignatures := .nil
      digests := by simp [newState]
      generation := Nat.le_refl _ }
  inbox _ := (Holds.of_empty fun _ => rfl).tracks
  optional := ⟨fun _ => rfl, by simp, by simp, by simp⟩
  status h := by cases h
  store := .inl fun _ => rfl

theorem op (h : Tracked W y) {o : StateOp B} (ho : o.Permitted W) : Tracked W (y.op o) where
  synced := h.synced.op ho
  inbox := inboxTracks_op h.synced h.inbox o
  optional := h.optional
  status := status_op h.status o
  store := h.store

theorem load {c : Content} (hd : Declared W y.rows c) (hu : c.Usable W) (hopt : OptionalRows W y.rows y.status)
    (h : y.load W H opts tags = ⟨some s, none⟩) : Tracked W { y with state := s, uncounted := false } := by
  obtain ⟨inbox, hst, hl, -⟩ := stored_of_load hd hu.digests hopt (by rw [← Sys.load, h])
  have hu' : ({ c with inbox := inbox } : Content).Usable W := ⟨hu.digests, hu.generation⟩
  refine ⟨hl.synced hst hu', fun _ => ?_, hopt, fun _ _ => hl.customStatus, .inr ⟨c, hd, hu⟩⟩
  rw [InboxTracks, hl.persistableInbox hst, hl.pending.inboxAdded, hl.pending.inboxRemoved]
  exact hst.inbox.tracks

end Tracked

/-! ## A save -/

theorem Sys.save_ok {raw : List B} {y : Sys B} (h : y.save W raw = .ok y') :
    ∃ req, (y.state.setMarshaledNewHistory raw).getSaveRequest W = .ok req ∧
      y' = { y with
        state := (y.state.setMarshaledNewHistory raw).resetChangeTracking
        rows := applyRequest y.rows req
        status := if y.historyChanged then getValue y.state.customStatus else y.status } := by
  unfold Sys.save at h
  cases hreq : (y.state.setMarshaledNewHistory raw).getSaveRequest W with
  | error e => simp [hreq, Except.map] at h
  | ok req =>
    simp only [hreq, Except.map, Except.ok.injEq] at h
    exact ⟨req, rfl, h.symm⟩

theorem decodeStatus_marshal (W : Wire B) (v : String) :
    ∃ o, decodeStatus W (W.stringValue.marshal v) = some o ∧ getValue o = v := by
  by_cases h0 : W.len (W.stringValue.marshal v) = 0
  · exact ⟨none, by simp [decodeStatus, h0], ((W.len_stringValue v).1 h0).symm⟩
  · exact ⟨some v, by simp [decodeStatus, h0], rfl⟩

section Save
variable {raw : List B} {y : Sys B} {req : List (TransactionalOperation B)}

theorem Synced.setMarshaled (h : Synced W rows s) (raw : List B) :
    Synced W rows (s.setMarshaledNewHistory raw) := { h with }

/-- The status after a save, by whether its row is written. -/
theorem status_of_writes (hw : y.state.writesCustomStatus = true) :
    (if y.historyChanged then getValue y.state.customStatus else y.status) = getValue y.state.customStatus := by
  unfold State.writesCustomStatus at hw
  rw [Bool.and_eq_true] at hw
  exact if_pos hw.1

theorem Tracked.status_of_not_writes (h : Tracked W y) (hw : y.state.writesCustomStatus = false) :
    (if y.historyChanged then getValue y.state.customStatus else y.status) = y.status := by
  split
  · rename_i hch
    unfold Sys.historyChanged at hch
    simp only [State.writesCustomStatus, hch, Bool.true_and, Bool.or_eq_false_iff, Bool.not_eq_false'] at hw
    exact h.status hw.2 hw.1
  · rfl

/-- The optional rows decode after a save, and the status row is that of the last save that
changed the history. -/
theorem Tracked.optional_save (h : Tracked W y) (hreq : (y.state.setMarshaledNewHistory raw).getSaveRequest W = .ok req) :
    OptionalRows W (applyRequest y.rows req) (if y.historyChanged then getValue y.state.customStatus else y.status) := by
  have he := saveEffect hreq y.rows
  have hcs : (applyRequest y.rows req) .customStatus = if y.state.writesCustomStatus then
      some (W.stringValue.marshal (getValue y.state.customStatus)) else y.rows .customStatus := he.customStatus
  refine ⟨fun hn => ?_, fun b hb => ?_, fun b hb => ?_, fun b hb => ?_⟩
  · cases hw : y.state.writesCustomStatus with
    | true => simp [hcs, hw] at hn
    | false =>
      rw [h.status_of_not_writes hw]
      exact h.optional.noStatus (by simpa [hcs, hw] using hn)
  · cases hw : y.state.writesCustomStatus with
    | true =>
      rw [status_of_writes hw]
      rw [hcs, if_pos hw, Option.some.injEq] at hb
      exact hb ▸ decodeStatus_marshal W _
    | false =>
      rw [h.status_of_not_writes hw]
      exact h.optional.customStatus b (by simpa [hcs, hw] using hb)
  · rw [he.propagatedHistory] at hb
    split at hb
    · obtain ⟨ph, -, rfl⟩ := Option.map_eq_some_iff.1 hb
      exact .inr (by simp)
    · exact h.optional.propagatedHistory b hb
  · rw [he.creationInput] at hb
    split at hb
    · split at hb
      · rw [Option.some.injEq] at hb
        exact .inl (by simp [← hb])
      · split at hb
        · cases hb
        · exact h.optional.creationInput b hb
    · exact h.optional.creationInput b hb

theorem Tracked.save (h : Tracked W y) (hraw : SignedBytes W (y.state.setMarshaledNewHistory raw))
    (hs : y.save W raw = .ok y') : Tracked W y' := by
  obtain ⟨req, hreq, rfl⟩ := Sys.save_ok hs
  have hsync := h.synced.setMarshaled raw
  refine ⟨hsync.save hraw hreq, fun hu => ?_, h.optional_save hreq, ?_,
    .inr ⟨_, hsync.declared hraw hreq, h.synced.usable⟩⟩
  · exact ((saveEffect hreq y.rows).inbox.holds (h.inbox hu) fun _ e _ => W.event.round_trip e).tracks
  · intro hp hc
    show getValue y.state.customStatus = if y.historyChanged then getValue y.state.customStatus else y.status
    cases hw : y.state.writesCustomStatus with
    | true => rw [status_of_writes hw]
    | false =>
      rw [h.status_of_not_writes hw]
      have hw' : (y.state.setMarshaledNewHistory raw).writesCustomStatus = false := hw
      simp only [State.resetChangeTracking, hw'] at hp hc
      exact h.status hp hc

/-- A save taken while every inbox event is counted leaves exactly the rows it declares. -/
theorem Tracked.stored (h : Tracked W y) (hu : y.uncounted = false)
    (hraw : SignedBytes W (y.state.setMarshaledNewHistory raw)) (hs : y.save W raw = .ok y') :
    Stored W y'.rows y.state.content := by
  obtain ⟨req, hreq, rfl⟩ := Sys.save_ok hs
  exact
    { (h.synced.setMarshaled raw).declared hraw hreq with
      inbox := (saveEffect hreq y.rows).inbox.holds (h.inbox hu) fun _ e _ => W.event.round_trip e }

end Save

section Reach
variable {H : ChainVerifier B} {opts : Options} {Tags : (Key → Option ETag) → Prop} {y : Sys B}

theorem load_of_empty (h : ∀ k, y.rows k = none) : y.load W H opts tags = ⟨none, none⟩ := by
  simp [Sys.load, loadWorkflowStateOnce, readItem_none (h .metadata), readMetadata]

theorem Tracked.step (h : Tracked W y) (hs : Step W H opts Tags y y') : Tracked W y' := by
  cases hs with
  | op o ho => exact h.op ho
  | save raw hraw hsave => exact h.save hraw hsave
  | load tags ht hl =>
    rcases h.store with he | ⟨c, hd, hu⟩
    · rw [load_of_empty he] at hl
      cases hl
    · exact .load hd hu h.optional hl

theorem Reached.tracked (h : Reached W H opts Tags y) : Tracked W y := by
  refine Reachable.invariant (Tracked W) ?_ (fun _ _ hi hs => hi.step hs) h
  intro y hs
  cases hs with
  | new => exact .new W opts
  | loaded tags ht hst hu hopt hl => exact .load hst.toDeclared hu hopt hl

end Reach

end Dapr.Workflow
