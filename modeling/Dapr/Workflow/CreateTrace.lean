import Dapr.Workflow.Create
import Dapr.Workflow.Resolutions
import Dapr.Workflow.Stored
/-!
# What a failed create leaves in memory

A create changes the cached state in place before it saves it. If the create fails, the cached
state must be dropped or show what the store holds, or later calls are answered from a state
that never was. Every exit of a failed create is such, but one: the propagated history that
comes with the create of a completed instance is verified after the cached state has been
reset.
-/

namespace Dapr.Workflow

variable {B : Type}

/-! ## Views -/

/-- What a client can tell of an instance. -/
structure View where
  inbox : List HistoryEvent
  history : List HistoryEvent
  generation : Nat
  customStatus : String
  incomingHistory : Option PropagatedHistory
  parentNotifyPending : Bool
  creationInput : Option CreationInputRow
  deriving DecidableEq

def State.view (s : State B) : View where
  inbox := s.inbox
  history := s.history
  generation := s.generation
  customStatus := getValue s.customStatus
  incomingHistory := s.incomingHistory
  parentNotifyPending := s.parentNotifyPending
  creationInput := s.creationInput.map fun v => ⟨s.creationInputParent, v⟩

/-- All that the store holds. -/
def Durable.view (d : Durable) : View where
  inbox := d.inbox
  history := d.history
  generation := d.generation
  customStatus := getValue d.customStatus
  incomingHistory := d.propagatedHistory
  parentNotifyPending := d.parentNotify
  creationInput := d.creationInput

def Durable.parent (d : Durable) : Option ParentInstanceInfo :=
  (executionStartedOf d.history d.inbox).bind fun start => start.parentInstance

/-- What a load makes of it, without the rows that are not this instance's. -/
def Durable.loadedView (d : Durable) : View :=
  { d.view with
    parentNotifyPending := d.parentNotify && d.parent.isSome
    creationInput := d.creationInput.filter fun row => row.parent = creationParentOf d.parent }

/-- The state shows what was saved, or what a load would make of it. -/
def Shows (s : State B) (d : Durable) : Prop := s.view = d.view ∨ s.view = d.loadedView

variable {s s' : State B} {d : Durable} {a : Instance B} {old : Option Durable} {o : Orchestrator}
  {ph : Option PropagatedHistory}

theorem Shows.generation (h : Shows s d) : s.generation = d.generation :=
  h.elim (congrArg View.generation) (congrArg View.generation)

/-- The cached state is dropped, or shows what the store holds. -/
def Instance.NoTrace (a : Instance B) : Prop := ∀ s, a.cached = some s → ∃ d, a.durable = some d ∧ Shows s d

/-- A cached state between calls: it shows what the store holds, and knows of the optional rows
whether they are stored and whether they are still to be removed. -/
structure Settled (s : State B) (d : Durable) : Prop where
  view : Shows s d
  noTimers : s.persistableInbox = s.inbox
  notifyPersisted : s.parentNotifyPersisted = d.parentNotify
  notifyChanged : s.parentNotifyChanged = false → s.parentNotifyPending = d.parentNotify
  inputPersisted : s.creationInputPersisted = d.creationInput.isSome
  inputChanged : s.creationInputChanged = false → s.view.creationInput = d.creationInput

/-- The cached state, if there is one, is settled, and no timers are stored. -/
structure Instance.Consistent (a : Instance B) : Prop where
  cached : ∀ s, a.cached = some s → ∃ d, a.durable = some d ∧ Settled s d
  noTimers : ∀ d, a.durable = some d → ∀ e ∈ d.inbox, e.isTimerFired = false

theorem Instance.Consistent.noTrace (h : a.Consistent) : a.NoTrace := fun s hs =>
  (h.cached s hs).imp fun _ ⟨hd, hset⟩ => ⟨hd, hset.view⟩

theorem Instance.noTrace_of_dropped (h : a.cached = none) : a.NoTrace := by
  intro s hs
  rw [h] at hs
  cases hs

namespace Settled

theorem status (h : Settled s d) : getValue s.customStatus = getValue d.customStatus :=
  h.view.elim (congrArg View.customStatus) (congrArg View.customStatus)

theorem incoming (h : Settled s d) : s.incomingHistory = d.propagatedHistory :=
  h.view.elim (congrArg View.incomingHistory) (congrArg View.incomingHistory)

end Settled

/-! ## Saves -/

/-- What a state must keep track of, for its save to store what it shows. -/
structure Writes (s : State B) (old : Option Durable) : Prop where
  noTimers : s.persistableInbox = s.inbox
  status : s.writesCustomStatus = false → getValue s.customStatus = getValue (old.bind fun d => d.customStatus)
  incoming : s.incomingHistoryChanged = false → s.incomingHistory = old.bind fun d => d.propagatedHistory
  notify : (s.parentNotifyChanged && (s.parentNotifyPending || s.parentNotifyPersisted)) = false →
    s.parentNotifyPending = old.any fun d => d.parentNotify
  input : (s.creationInputChanged && (s.creationInput.isSome || s.creationInputPersisted)) = false →
    s.view.creationInput = old.bind fun d => d.creationInput

theorem Writes.view (h : Writes s old) : s.view = (s.write old).view := by
  have hstatus : getValue s.customStatus = getValue (s.write old).customStatus := by
    cases hw : s.writesCustomStatus with
    | true => simp [State.write, hw, getValue]
    | false => simpa [State.write, hw] using h.status hw
  have hincoming : s.incomingHistory = (s.write old).propagatedHistory := by
    cases hc : s.incomingHistoryChanged with
    | true => simp [State.write, hc]
    | false => simpa [State.write, hc] using h.incoming hc
  have hnotify : s.parentNotifyPending = (s.write old).parentNotify := by
    simp only [State.write]
    split
    · rfl
    · exact h.notify (Bool.of_not_eq_true ‹_›)
  have hinput : s.view.creationInput = (s.write old).creationInput := by
    simp only [State.write]
    split
    · rfl
    · exact h.input (Bool.of_not_eq_true ‹_›)
  rw [View.mk.injEq]
  exact ⟨h.noTimers.symm, rfl, rfl, hstatus, hincoming, hnotify, hinput⟩

/-- The optional rows are those of a record, if there is one. -/
structure HoldsOptional (W : Wire B) (rows : Rows B) (old : Option Durable) : Prop where
  customStatus : rows .customStatus = (old.bind fun d => d.customStatus).map W.stringValue.marshal
  propagatedHistory : rows .propagatedHistory = (old.bind fun d => d.propagatedHistory).map W.propagatedHistory.marshal
  parentNotify : rows .parentNotify = if old.any fun d => d.parentNotify then some W.marker else none
  creationInput : rows .creationInput = (old.bind fun d => d.creationInput).map W.creationInputRow.marshal

/-- The record after a save is what the save request makes of the rows. -/
theorem holdsOptional_write {W : Wire B} {rows rows' : Rows B} (heffect : SaveEffect W s rows rows')
    (h : HoldsOptional W rows old) : HoldsOptional W rows' (some (s.write old)) where
  customStatus := by
    rw [heffect.customStatus, h.customStatus]
    cases hw : s.writesCustomStatus <;> simp [State.write, hw]
  propagatedHistory := by
    rw [heffect.propagatedHistory, h.propagatedHistory]
    cases hc : s.incomingHistoryChanged <;> simp [State.write, hc]
  parentNotify := by
    rw [heffect.parentNotify, h.parentNotify]
    cases hc : s.parentNotifyChanged <;> cases hp : s.parentNotifyPending <;> cases hs : s.parentNotifyPersisted <;>
      simp [State.write, hc, hp, hs]
  creationInput := by
    rw [heffect.creationInput, h.creationInput]
    cases hc : s.creationInputChanged <;> cases hi : s.creationInput <;> cases hs : s.creationInputPersisted <;>
      simp [State.write, hc, hi, hs]

/-- So it is over any number of saves. -/
theorem holdsOptional_saves {W : Wire B} {rows : Rows B} (saves : List (State B × List (TransactionalOperation B)))
    (hsaves : ∀ p ∈ saves, p.1.getSaveRequest W = .ok p.2) (h : HoldsOptional W rows old) :
    HoldsOptional W (saves.foldl (fun rows p => applyRequest rows p.2) rows)
      (saves.foldl (fun old p => some (p.1.write old)) old) := by
  induction saves generalizing rows old with
  | nil => exact h
  | cons p saves ih =>
    obtain ⟨hp, hrest⟩ := List.forall_mem_cons.1 hsaves
    exact ih hrest (holdsOptional_write (saveEffect hp rows) h)

/-- The second save removes the row that the first one wrote. -/
theorem holdsOptional_saves_notify :
    let s := (newState ⟨"app", "default", false⟩).setParentNotifyPending true
    let s' := s.resetChangeTracking.setParentNotifyPending false
    ∃ req req', s.getSaveRequest plainWire = .ok req ∧ s'.getSaveRequest plainWire = .ok req' ∧
      applyRequest (fun _ => none) req .parentNotify = some plainWire.marker ∧
      applyRequest (applyRequest (fun _ => none) req) req' .parentNotify = none ∧
      HoldsOptional plainWire (applyRequest (applyRequest (fun _ => none) req) req')
        (some (s'.write (some (s.write none)))) := by
  intro s s'
  obtain ⟨req, hreq⟩ : ∃ req, s.getSaveRequest plainWire = .ok req := ⟨_, rfl⟩
  obtain ⟨req', hreq'⟩ : ∃ req', s'.getSaveRequest plainWire = .ok req' := ⟨_, rfl⟩
  have hnone : HoldsOptional plainWire (fun _ => none) none := ⟨rfl, rfl, rfl, rfl⟩
  have hfirst := holdsOptional_saves [(s, req)] (by simpa using hreq) hnone
  have hboth := holdsOptional_saves [(s, req), (s', req')] (by simp [hreq, hreq']) hnone
  exact ⟨req, req', hreq, hreq', hfirst.parentNotify, hboth.parentNotify, hboth⟩

/-- Whatever comes of a save, it keeps a state only if that shows what the store then holds. -/
theorem noTrace_save (env : CreateEnv) (h : Writes s a.durable) : (o.signAndSaveState env a s).2.NoTrace := by
  have hkeep : ∀ etag, Instance.NoTrace
      ⟨some (s.resetChangeTracking.setMetadataETag etag), some (s.write a.durable)⟩ := by
    intro etag s' hs'
    cases hs'
    exact ⟨_, rfl, .inl h.view⟩
  unfold Orchestrator.signAndSaveState
  split
  · exact Instance.noTrace_of_dropped rfl
  · split
    · exact Instance.noTrace_of_dropped rfl
    · dsimp only
      split
      · exact Instance.noTrace_of_dropped rfl
      · exact Instance.noTrace_of_dropped rfl
      · split
        · exact Instance.noTrace_of_dropped rfl
        · exact hkeep none
        · exact hkeep _
        · split
          · exact hkeep none
          · split <;> exact Instance.noTrace_of_dropped rfl

/-! ## Loads -/

section Load
variable {env : CreateEnv} {etag : Option ETag}

theorem persistableInbox_loaded (etag : Option ETag) (h : ∀ e ∈ d.inbox, e.isTimerFired = false) :
    (o.loaded d etag : State B).persistableInbox = d.inbox :=
  List.filter_eq_self.2 fun e he => by simp [h e he]

theorem view_loaded (etag : Option ETag) : (o.loaded d etag : State B).view = d.view := by
  cases hrow : d.creationInput <;> simp [State.view, Durable.view, Orchestrator.loaded, hrow]

theorem settled_loaded (h : ∀ e ∈ d.inbox, e.isTimerFired = false) : Settled (o.loaded d etag : State B) d where
  view := .inl (view_loaded etag)
  noTimers := persistableInbox_loaded etag h
  notifyPersisted := rfl
  notifyChanged := fun _ => rfl
  inputPersisted := rfl
  inputChanged := fun _ => congrArg View.creationInput (view_loaded etag)

theorem dropStaleRows_loaded :
    (o.loaded d etag : State B).dropStaleRows =
      let own := d.creationInput.filter fun row => row.parent = creationParentOf d.parent
      { o.loaded d etag with
        parentNotifyPending := d.parentNotify && d.parent.isSome
        parentNotifyChanged := d.parentNotify && d.parent.isNone
        creationInput := own.map fun row => row.input
        creationInputParent := (own.map fun row => row.parent).getD ⟨"", ""⟩
        creationInputChanged := d.creationInput.isSome && own.isNone } := by
  have hparent : (o.loaded d etag : State B).parentInstance = d.parent := rfl
  unfold State.dropStaleRows
  rw [hparent]
  generalize d.parent = parent
  -- whether the parent is owed a notification and exists, and whether there is an input and it is the parent's
  cases hrow : d.creationInput with
  | none =>
    cases hnotify : d.parentNotify <;> cases parent <;>
      simp [Orchestrator.loaded, newState, State.setParentNotifyPending, hnotify, hrow]
  | some row =>
    by_cases hown : row.parent = creationParentOf parent
    · cases hnotify : d.parentNotify <;> cases parent <;>
        simp [Orchestrator.loaded, newState, State.setParentNotifyPending, State.creationInputFor, Option.filter,
          hnotify, hrow, hown]
    · cases hnotify : d.parentNotify <;> cases parent <;>
        simp [Orchestrator.loaded, newState, State.setParentNotifyPending, State.creationInputFor, Option.filter,
          State.clearCreationInput, hnotify, hrow, hown]

theorem settled_dropStaleRows (h : ∀ e ∈ d.inbox, e.isTimerFired = false) :
    Settled (o.loaded d etag : State B).dropStaleRows d := by
  rw [dropStaleRows_loaded]
  refine ⟨.inr ?_, persistableInbox_loaded (B := B) (o := o) etag h, rfl, ?_, rfl, ?_⟩
  · cases hown : d.creationInput.filter fun row => row.parent = creationParentOf d.parent with
    | none | some => simp [State.view, Durable.loadedView, Durable.view, Orchestrator.loaded, hown]
  · cases hp : d.parent <;> simp
  · intro hc
    cases hown : d.creationInput.filter fun row => row.parent = creationParentOf d.parent with
    | none => simp_all [State.view]
    | some row => 
      have := (Option.filter_eq_some_iff.1 hown).1
      simp [State.view, this]

theorem writes_marked (etag : Option ETag) (h : ∀ e ∈ d.inbox, e.isTimerFired = false) (marker : HistoryEvent) :
    Writes ((o.loaded d etag : State B).addToHistory marker) (some d) where
  noTimers := persistableInbox_loaded (B := B) (o := o) etag h
  status := fun _ => rfl
  incoming := fun _ => rfl
  notify := fun _ => rfl
  input := fun _ => congrArg View.creationInput (view_loaded (B := B) (o := o) etag)

theorem settled_marked (h : ∀ e ∈ d.inbox, e.isTimerFired = false) (marker : HistoryEvent) (tag : Option ETag)
    (seen : Bool) :
    let s : State B := (o.loaded d etag).addToHistory marker
    Settled { s.resetChangeTracking with metadataETag := tag, metadataETagSeen := seen } (s.write (some d)) where
  view := .inl (writes_marked etag h marker).view
  noTimers := (writes_marked (B := B) (o := o) etag h marker).noTimers
  notifyPersisted := rfl
  notifyChanged := fun _ => rfl
  inputPersisted := rfl
  inputChanged := fun _ => congrArg View.creationInput (writes_marked etag h marker).view

theorem tombstone_cases (etag : Option ETag) (env : CreateEnv) (cause : String) (h : ∀ e ∈ d.inbox, e.isTimerFired = false) :
    (∃ err durable, Orchestrator.tombstone env ⟨none, some d⟩ (o.loaded d etag : State B) cause =
      (.error err, ⟨none, durable⟩)) ∨
    ∃ s d', Orchestrator.tombstone env ⟨none, some d⟩ (o.loaded d etag : State B) cause =
      (.ok s, ⟨some s, some d'⟩) ∧ Settled s d' := by
  unfold Orchestrator.tombstone
  split
  · exact .inr ⟨_, d, rfl, settled_loaded h⟩
  · cases env.tombstone with
    | failed | lost => exact .inl ⟨_, _, rfl⟩
    | committed =>
      cases env.tombstoneTag <;> exact .inr ⟨_, _, rfl, settled_marked h _ _ _⟩

theorem loadInstance_spec (env : CreateEnv) (h : a.Consistent) : match o.loadInstance env a with
    | (.error _, a') => a'.cached = none
    | (.ok none, a') => a'.cached = none ∧ a'.durable = none
    | (.ok (some s), a') => a'.cached = some s ∧ ∃ d, a'.durable = some d ∧ Settled s d := by
  obtain ⟨cached, durable⟩ := a
  unfold Orchestrator.loadInstance
  cases cached with
  | some s => exact ⟨rfl, h.cached s rfl⟩
  | none =>
    cases durable with
    | none => cases env.load <;> simp
    | some d =>
      have ht := h.noTimers d rfl
      cases env.load with
      | failed err => simp
      | intact => exact ⟨rfl, d, rfl, settled_dropStaleRows ht⟩
      | tampered cause =>
        obtain ⟨err, durable, heq⟩ | ⟨s, d', heq, hs⟩ := tombstone_cases (B := B) (o := o) env.etag env cause ht
        · simp [heq]
        · simpa [heq] using hs

end Load

/-! ## States on the way to a save -/

/-- A state that nothing was added to. -/
structure Blank (s : State B) : Prop where
  inbox : s.inbox = []
  history : s.history = []
  creationInput : s.creationInput = none
  parentNotifyPending : s.parentNotifyPending = false

theorem blank_reset (s : State B) : Blank s.reset where
  inbox := rfl
  history := rfl
  creationInput := by
    simp only [State.reset]
    split <;> simp_all
  parentNotifyPending := by
    simp only [State.reset]
    split <;> simp_all

theorem blank_newState (opts : Options) : Blank (newState opts : State B) := ⟨rfl, rfl, rfl, rfl⟩

theorem writes_newState (opts : Options) : Writes (newState opts : State B) none where
  noTimers := rfl
  status := fun _ => rfl
  incoming := fun _ => rfl
  notify := fun _ => rfl
  input := fun _ => rfl

/-- The history that a reset removes makes the save write the custom status. -/
theorem writes_reset (h : Settled s d) (hhist : s.history ≠ []) : Writes s.reset (some d) where
  noTimers := rfl
  status := by
    intro hw
    have hempty : getValue s.customStatus = "" := by
      by_contra hne
      simp [State.writesCustomStatus, State.reset, hne, hhist] at hw
    simpa [State.reset, getValue] using (hempty.symm.trans h.status)
  incoming := by
    intro hc
    simp only [State.reset, Bool.or_eq_false_iff, Option.isSome_eq_false_iff, Option.isNone_iff_eq_none] at hc
    simp [State.reset, ← h.incoming, hc.2]
  notify := by
    intro hc
    have hpersisted : s.parentNotifyPersisted = false := by
      by_contra hp
      simp [State.reset, hp] at hc
    rw [(blank_reset s).parentNotifyPending]
    simp [← h.notifyPersisted, hpersisted]
  input := by
    intro hc
    have hpersisted : s.creationInputPersisted = false := by
      by_contra hp
      simp [State.reset, hp] at hc
    have hnone : d.creationInput = none := by
      simpa [hpersisted] using h.inputPersisted.symm
    simp [State.view, (blank_reset s).creationInput, hnone]

/-- Certificates have no part in what a save stores. -/
theorem absorbCerts_cases (s : State B) (certs : List (Blob × Blob)) :
    ∃ table added index, (Orchestrator.absorbCerts s certs).2 =
      { s with
        externalSigningCertificates := table
        externalSigningCertificatesAddedCount := added
        externalCertDigestIndex := index } := by
  induction certs generalizing s with
  | nil => exact ⟨_, _, _, rfl⟩
  | cons cert certs ih =>
    obtain ⟨digest, certDER⟩ := cert
    rw [Orchestrator.absorbCerts]
    cases hadd : s.addExternalCert digest certDER with
    | none => exact ⟨_, _, _, rfl⟩
    | some added =>
      obtain ⟨idx, s'⟩ := added
      obtain ⟨table, count, index, heq⟩ := ih s'
      refine ⟨table, count, index, heq.trans ?_⟩
      simp only [State.addExternalCert] at hadd
      split at hadd
      · cases hadd
      · split at hadd
        · cases hadd
          rfl
        · cases hadd
          rfl

theorem verifyAndAbsorb_cases (o : Orchestrator) (env : CreateEnv) (ph : PropagatedHistory) (s : State B) :
    ∃ table added index, (o.verifyAndAbsorbPropagatedHistory env ph s).2 =
      { s with
        externalSigningCertificates := table
        externalSigningCertificatesAddedCount := added
        externalCertDigestIndex := index } := by
  unfold Orchestrator.verifyAndAbsorbPropagatedHistory
  split
  · exact ⟨_, _, _, rfl⟩
  · split
    · exact ⟨_, _, _, rfl⟩
    · exact absorbCerts_cases s _

/-- A history that is accepted leaves a blank state that a save would store. -/
theorem receiveHistory_accepted {env : CreateEnv} (hb : Blank s) (hw : Writes s old)
    (h : o.receiveHistory env ph s = (true, s')) : Blank s' ∧ Writes s' old := by
  cases ph with
  | none =>
    cases h
    exact ⟨hb, hw⟩
  | some ph =>
    obtain ⟨table, added, index, heq⟩ := verifyAndAbsorb_cases o env ph s
    simp only [Orchestrator.receiveHistory] at h
    split at h
    · cases h
    · rename_i s₁ hv
      cases h
      rw [hv] at heq
      subst heq
      exact ⟨⟨hb.inbox, hb.history, hb.creationInput, hb.parentNotifyPending⟩,
        ⟨hw.noTimers, hw.status, fun hc => Bool.noConfusion hc, hw.notify, hw.input⟩⟩

/-- The start of a run, added to a blank state. -/
theorem Writes.start {e : HistoryEvent} {start : ExecutionStartedEvent} (hb : Blank s) (hw : Writes s old)
    (he : e.getExecutionStarted = some start) : Writes ((s.keepCreationInputOf start).addToInbox e) old := by
  have htimer : e.isTimerFired = false := HistoryEvent.isTimerFired_of_start (by rw [he]; rfl)
  have hkeep : ∀ t : State B, t.inbox = [] → (t.addToInbox e).persistableInbox = (t.addToInbox e).inbox := by
    intro t ht
    simp [State.persistableInbox, State.addToInbox, ht, htimer]
  unfold State.keepCreationInputOf
  split
  · exact ⟨hkeep _ hb.inbox, hw.status, hw.incoming, hw.notify, hw.input⟩
  · exact ⟨hkeep _ hb.inbox, hw.status, hw.incoming, hw.notify, fun hc => by simp [State.addToInbox, State.setCreationInput] at hc⟩

theorem writes_renotify (h : Settled s d) : Writes (s.setParentNotifyPending true) (some d) where
  noTimers := h.noTimers
  status := fun _ => h.status
  incoming := fun _ => h.incoming
  notify := by
    intro hc
    simp only [State.setParentNotifyPending, Bool.true_or, Bool.and_true, Bool.or_eq_false_iff,
      Bool.true_and, Bool.not_eq_false'] at hc
    simpa [State.setParentNotifyPending] using h.notifyPersisted.symm.trans hc.2.2 |>.symm
  input := by
    intro hc
    cases hch : s.creationInputChanged with
    | false => exact h.inputChanged hch
    | true =>
      simp only [State.setParentNotifyPending, hch, Bool.true_and, Bool.or_eq_false_iff] at hc
      have hnone : d.creationInput = none := by
        simpa [hc.2] using h.inputPersisted.symm
      have hval : s.creationInput = none := by simpa using hc.1
      simp [State.view, State.setParentNotifyPending, hval, hnone]

/-! ## The exits of a create -/

namespace Orchestrator
variable {env : CreateEnv} {req : CreateWorkflowInstanceRequest} {start : ExecutionStartedEvent}

/-- The create of a completed instance that may be created again comes with a history that is
rejected. -/
def RejectsRecreation (o : Orchestrator) (env : CreateEnv) (s : State B) (req : CreateWorkflowInstanceRequest)
    (start : ExecutionStartedEvent) : Prop :=
  o.judgeExisting env s start req.enforceUniqueInstanceId = .recreate ∧
    ∃ ph, req.propagatedHistory = some ph ∧ (o.verifyAndAbsorbPropagatedHistory env ph s.reset).1 = false

theorem receiveHistory_rejected (h : o.receiveHistory env ph s = (false, s')) :
    ∃ history, ph = some history ∧ (o.verifyAndAbsorbPropagatedHistory env history s).1 = false ∧
      s' = (o.verifyAndAbsorbPropagatedHistory env history s).2 := by
  cases ph with
  | none => cases h
  | some history =>
    refine ⟨history, rfl, ?_⟩
    simp only [receiveHistory] at h
    split at h
    · next heq =>
      cases h
      simp [heq]
    · cases h

theorem receiveHistory_fst (env : CreateEnv) (ph : Option PropagatedHistory) :
    (o.receiveHistory env ph s).1 = ph.all fun ph => (o.verifyAndAbsorbPropagatedHistory env ph s).1 := by
  cases ph with
  | none => rfl
  | some ph =>
    simp only [receiveHistory]
    split <;> simp_all

theorem noTrace_scheduleWorkflowStart (hb : Blank s) (hw : Writes s a.durable)
    (hstart : req.startEvent.getExecutionStarted = some start) :
    (o.scheduleWorkflowStart env a req.startEvent start s).2.NoTrace := by
  have hsave := noTrace_save (o := o) env (Writes.start hb hw hstart)
  unfold scheduleWorkflowStart
  split <;> next heq => simpa only [heq] using hsave

/-- An instance that still runs is not created again. -/
theorem judgeActive_ne_recreate : o.judgeActive env s start ≠ .recreate := by
  have hredrive : (s.pendingStart.filter env.startReminderNeedsReassert).elim .ignore .redrive ≠ Existing.recreate := by
    cases s.pendingStart.filter env.startReminderNeedsReassert <;> simp
  unfold judgeActive
  dsimp only
  split
  · exact hredrive
  · split
    · exact hredrive
    · split
      · simp
      · split <;> simp

theorem history_ne_nil_of_recreate (hrt : o.runtime.isCompleted [] = false)
    (h : o.judgeExisting env s start req.enforceUniqueInstanceId = .recreate) : s.history ≠ [] := by
  intro hnil
  simp only [judgeExisting, hnil, hrt] at h
  exact judgeActive_ne_recreate h

theorem noTrace_createIfCompleted_iff (hrt : o.runtime.isCompleted [] = false) (hcached : a.cached = some s)
    (hdurable : a.durable = some d) (hs : Settled s d) (hstart : req.startEvent.getExecutionStarted = some start) :
    (o.createIfCompleted env a s req start).2.NoTrace ↔ ¬ o.RejectsRecreation env s req start := by
  have hnow : a.NoTrace := by
    intro s' hs'
    rw [hcached] at hs'
    cases hs'
    exact ⟨d, hdurable, hs.view⟩
  unfold createIfCompleted RejectsRecreation
  cases hj : o.judgeExisting env s start req.enforceUniqueInstanceId with
  | ignore | redrive | refuse => simpa using hnow
  | renotify =>
    have hsave := noTrace_save (o := o) env
      (hdurable ▸ writes_renotify hs)
    simp only [reduceCtorEq, false_and, not_false_eq_true, iff_true]
    split <;> next heq => simpa only [heq] using hsave
  | recreate =>
    have hfst := receiveHistory_fst (o := o) env (s := s.reset) req.propagatedHistory
    have hhist := history_ne_nil_of_recreate hrt hj
    dsimp only
    split
    · next s' heq =>
      obtain ⟨ph, hph, hfalse, rfl⟩ := receiveHistory_rejected heq
      refine iff_of_false ?_ (not_not_intro ⟨rfl, ph, hph, hfalse⟩)
      intro htrace
      obtain ⟨d', hd', hshows⟩ := htrace _ rfl
      obtain ⟨table, added, index, habs⟩ := verifyAndAbsorb_cases o env ph s.reset
      have hgen := hshows.generation
      rw [habs] at hgen
      rw [hdurable] at hd'
      cases hd'
      have := hs.view.generation
      simp only [State.reset] at hgen
      omega
    · next s' heq =>
      obtain ⟨hb, hw⟩ := receiveHistory_accepted (blank_reset s) (writes_reset hs hhist) heq
      refine iff_of_true (noTrace_scheduleWorkflowStart hb (hdurable ▸ hw) hstart) ?_
      rintro ⟨-, ph, hph, hfalse⟩
      rw [heq, hph] at hfst
      simp [hfalse] at hfst

/-- The instance is there, and its recreation fails after the reset. -/
def RejectsCreate (o : Orchestrator) (env : CreateEnv) (a : Instance B) (req : CreateWorkflowInstanceRequest) : Prop :=
  ∃ start s, req.startEvent.getExecutionStarted = some start ∧ (o.loadInstance env a).1 = .ok (some s) ∧
    o.RejectsRecreation env s req start

/-- Whatever its exit, a create leaves the cached state dropped or as the store has it, unless
the history that comes with it is rejected after the reset. -/
theorem create_leaves_no_trace_iff (o : Orchestrator) (env : CreateEnv) (a : Instance B)
    (req : CreateWorkflowInstanceRequest) (hrt : o.runtime.isCompleted [] = false) (ha : a.Consistent) :
    (o.createWorkflowInstance env a req).2.NoTrace ↔ ¬ o.RejectsCreate env a req := by
  unfold createWorkflowInstance RejectsCreate
  cases hstart : req.startEvent.getExecutionStarted with
  | none => simpa using ha.noTrace
  | some start =>
    have hload := loadInstance_spec (o := o) env ha
    rcases hl : o.loadInstance env a with ⟨result, a'⟩
    simp only [hl] at hload
    cases result with
    | error err => simpa using Instance.noTrace_of_dropped hload
    | ok found =>
      cases found with
      | some s =>
        obtain ⟨hcached, d, hdurable, hs⟩ := hload
        simpa using noTrace_createIfCompleted_iff hrt hcached hdurable hs hstart
      | none =>
        obtain ⟨hcached, hdurable⟩ := hload
        refine iff_of_true ?_ (by simp)
        dsimp only
        split
        · exact Instance.noTrace_of_dropped hcached
        · next s heq =>
          have ⟨hb, hw⟩ := receiveHistory_accepted (blank_newState o.opts) (writes_newState o.opts) heq
          exact noTrace_scheduleWorkflowStart hb (hdurable ▸ hw) hstart

end Orchestrator

/-! ## A history rejected after the reset -/

def exampleEnd : HistoryEvent := exampleEvent (-1) (.executionCompleted ⟨.completed, none⟩)

/-- An instance that has run to its end. -/
def completedOrder : Durable where
  inbox := []
  history := [exampleStart, exampleEnd]
  generation := 1
  customStatus := none
  propagatedHistory := none
  parentNotify := false
  creationInput := none

/-- A create for which all goes well but, perhaps, the verification of the history. -/
def createEnv (verify : PropagatedHistory → Option (List (Blob × Blob))) : CreateEnv where
  now := 0
  load := .intact
  etag := none
  tombstone := .committed
  tombstoneTag := none
  startReminderNeedsReassert := fun _ => false
  activityResultAwaited := false
  children := .terminal
  verifyPropagatedHistory := verify
  signs := true
  save := .committed
  refresh := .noResponse
  startReminder := true
  parentNotifyReminder := true

def createOrder (ph : Option PropagatedHistory) : CreateWorkflowInstanceRequest := ⟨exampleStart, ph, false⟩

theorem consistent_completedOrder : Instance.Consistent (⟨none, some completedOrder⟩ : Instance Unit) where
  cached _ hs := by cases hs
  noTimers d hd := by
    cases hd
    simp [completedOrder]

/-- The host keeps an empty second generation of an instance that the store holds completed. -/
theorem rejected_history_leaves_reset_state :
    let a : Instance Unit := ⟨none, some completedOrder⟩
    let after := (exampleHost true).createWorkflowInstance (createEnv fun _ => none) a (createOrder (some ⟨[]⟩))
    a.Consistent ∧ after.1.isSome ∧ after.2.durable = some completedOrder ∧
      after.2.cached.map State.history = some [] ∧ after.2.cached.map State.generation = some 2 ∧
      ¬ after.2.NoTrace := by
  refine ⟨consistent_completedOrder, rfl, rfl, rfl, rfl, ?_⟩
  intro h
  obtain ⟨d, hd, hshows⟩ := h _ rfl
  cases hd
  have hgen := hshows.generation
  contradiction

/-- The same create with a history that verifies. -/
theorem create_leaves_no_trace_verified :
    ((exampleHost true).createWorkflowInstance (createEnv fun _ => some []) (⟨none, some completedOrder⟩ : Instance Unit)
      (createOrder (some ⟨[]⟩))).2.NoTrace := by
  refine (Orchestrator.create_leaves_no_trace_iff _ _ _ _ rfl consistent_completedOrder).2 ?_
  rintro ⟨start, s, -, hs, -, ph, hph, hfalse⟩
  cases hph
  cases hs
  exact Bool.noConfusion hfalse

end Dapr.Workflow
