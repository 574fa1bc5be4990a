import Dapr.Workflow.Purge
import Dapr.Workflow.Resolutions
/-!
# Saves that stay within their lists

A save writes the last events of a list, as many as were counted when they were added. The inbox
is counted with its timers and saved without them. So a save can only go wrong over a timer that
was counted, and of the ways into the inbox only the admission of a delivered event takes timers.
-/

namespace Dapr.Workflow

open Lib.Runs

variable {B : Type}

/-- What create, turns and reruns do to a state, deliveries apart: they add starts, external events
that are carried over, held results, and results that came early. -/
def StateOp.Own : StateOp B → Prop
  | .addToInbox e => e.getExecutionStarted.isSome ∨ isEventRaised e ∨ isActivityResult e ∨
      ∃ history newEvents keep, e ∈ (stripUnmatchedResolutions history newEvents keep).2
  | .fromWorkflowState ws => ws.inbox = []
  | _ => True

/-- The steps of an instance to which the events that satisfy `admits` are delivered. -/
inductive DeliveryStep (W : Wire B) (H : ChainVerifier B) (opts : Options) (Tags : (Key → Option ETag) → Prop)
    (admits : HistoryEvent → Prop) : Sys B → Sys B → Prop where
  | accept {y : Sys B} {e : HistoryEvent} (he : admits e) : DeliveryStep W H opts Tags admits y (y.op (.addToInbox e))
  | own {y : Sys B} {o : StateOp B} (ho : o.Own) (hp : o.Permitted W) : DeliveryStep W H opts Tags admits y (y.op o)
  | save {y y' : Sys B} (raw : List B) (hraw : SignedBytes W (y.state.setMarshaledNewHistory raw))
      (h : y.save W raw = .ok y') : DeliveryStep W H opts Tags admits y y'
  | load {y : Sys B} {s : State B} (tags : Key → Option ETag) (ht : Tags tags)
      (h : y.load W H opts tags = ⟨some s, none⟩) :
      DeliveryStep W H opts Tags admits y { y with state := s, uncounted := false }

/-- What deliveries that are admitted lead to. -/
def DeliveryReached (W : Wire B) (H : ChainVerifier B) (opts : Options) (Tags : (Key → Option ETag) → Prop)
    (admits : HistoryEvent → Prop) : Sys B → Prop :=
  Reachable (Start W H opts Tags) (DeliveryStep W H opts Tags admits)

/-- No list has fewer elements than were counted as added to it. -/
structure State.CountsInBounds (s : State B) : Prop where
  inbox : s.inboxAddedCount ≤ s.persistableInbox.length
  history : s.historyAddedCount ≤ s.history.length
  sigcerts : s.signingCertificatesAddedCount ≤ s.signingCertificates.length
  extSigcerts : s.externalSigningCertificatesAddedCount ≤ s.externalSigningCertificates.length
  signatures : s.signaturesAddedCount ≤ s.rawSignatures.length

variable {W : Wire B} {H : ChainVerifier B} {opts : Options} {Tags : (Key → Option ETag) → Prop}
  {admits : HistoryEvent → Prop} {y : Sys B} {s : State B} {e : HistoryEvent}

theorem DeliveryStep.step {y' : Sys B} (h : DeliveryStep W H opts Tags admits y y') : Step W H opts Tags y y' := by
  cases h with
  | accept he => exact .op _ trivial
  | own ho hp => exact .op _ hp
  | save raw hraw h => exact .save raw hraw h
  | load tags ht h => exact .load tags ht h

theorem DeliveryReached.reached (h : DeliveryReached W H opts Tags admits y) : Reached W H opts Tags y := by
  induction h with
  | start hs => exact .start hs
  | step _ hs ih => exact .step ih hs.step

/-! ## The inbox -/

/-- No more events are counted as added than are in the inbox. -/
def State.InboxCounted (s : State B) : Prop := s.inboxAddedCount ≤ s.persistableInbox.length

/-- An event that is no timer is counted and saved. -/
theorem State.InboxCounted.add (h : s.InboxCounted) (he : e.isTimerFired = false) : (s.addToInbox e).InboxCounted := by
  unfold InboxCounted at h ⊢
  rw [persistableInbox_addToInbox]
  simpa [addToInbox, he] using h

theorem StateOp.Own.not_timer (h : (StateOp.addToInbox e : StateOp B).Own) : e.isTimerFired = false := by
  rcases h with h | h | h | ⟨history, newEvents, keep, h⟩
  · exact HistoryEvent.isTimerFired_of_start h
  · obtain ⟨name, input, ht⟩ := eventType_of_eventRaised h
    simp [HistoryEvent.isTimerFired, ht]
  · unfold isActivityResult at h
    unfold HistoryEvent.isTimerFired
    split at h <;> simp_all
  · exact (mem_early rfl h).2.2.1

theorem StateOp.Own.counted {o : StateOp B} (ho : o.Own) (h : s.InboxCounted) : (o.run s).InboxCounted := by
  cases o with
  | addToInbox e => exact h.add ho.not_timer
  | appendInbox e =>
    unfold State.InboxCounted at h ⊢
    rw [StateOp.run, State.persistableInbox_appendInbox, List.length_append]
    exact Nat.le_add_right_of_le h
  | clearInbox | reset => exact Nat.zero_le _
  | fromWorkflowState ws =>
    have hnil : ws.inbox = [] := ho
    have hzero : (ws.history.foldl State.addToHistory s.reset).inboxAddedCount = 0 :=
      (foldl_addToHistory_inbox ws.history s.reset).2.1
    simp only [StateOp.run, State.fromWorkflowState, hnil, List.foldl_nil]
    rw [hzero]
    exact Nat.zero_le _
  | applyRuntimeStateChanges rs =>
    simp only [StateOp.run, State.applyRuntimeStateChanges]
    split <;> exact h
  | addExternalCert digest certDER =>
    simp only [StateOp.run, State.addExternalCert]
    repeat' split
    all_goals exact h
  | keepCreationInput start =>
    simp only [StateOp.run, State.keepCreationInputOf]
    split <;> exact h
  | clearCreationInput =>
    simp only [StateOp.run, State.clearCreationInput]
    split <;> exact h
  | _ => exact h

theorem DeliveryReached.inboxCounted (h : DeliveryReached W H opts Tags (fun e => e.isTimerFired = false) y) :
    y.state.InboxCounted := by
  induction h with
  | start hs =>
    have htracked := Reached.tracked (.start hs)
    cases hs with
    | new => exact Nat.zero_le _
    | loaded => exact (htracked.inbox rfl).added_le
  | step h hs ih =>
    have htracked := (DeliveryReached.reached h).tracked.step hs.step
    cases hs with
    | accept he => exact ih.add he
    | own ho hp => exact ho.counted ih
    | save raw hraw hsave =>
      obtain ⟨req, -, rfl⟩ := Sys.save_ok hsave
      exact Nat.zero_le _
    | load => exact (htracked.inbox rfl).added_le

/-! ## The save -/

theorem addOperations_in_bounds {α : Type} (f : Family) (data : Nat → α → B) {items : List α} {added : Nat}
    (h : added ≤ items.length) (removed : Nat) : ∃ ops, addOperations f data items added removed = .ok ops := by
  unfold addOperations
  rw [if_neg (by omega)]
  exact ⟨_, rfl⟩

theorem getSaveRequest_in_bounds (h : s.CountsInBounds) : s.getSaveRequest W ≠ .error .indexOutOfRange := by
  obtain ⟨inbox, h₁⟩ := addOperations_in_bounds .inbox (fun _ => W.event.marshal) h.inbox s.inboxRemovedCount
  obtain ⟨history, h₂⟩ := addOperations_in_bounds .history (s.historyData W) h.history s.historyRemovedCount
  obtain ⟨sigcerts, h₃⟩ := addOperations_in_bounds .sigcert (fun _ => W.signingCertificate.marshal) h.sigcerts
    s.signingCertificatesRemovedCount
  obtain ⟨ext, h₄⟩ := addOperations_in_bounds .extSigCert (fun _ => W.externalSigningCertificate.marshal)
    h.extSigcerts s.externalSigningCertificatesRemovedCount
  obtain ⟨signatures, h₅⟩ := addOperations_in_bounds .signature (fun _ b => b) h.signatures s.signaturesRemovedCount
  simp only [State.getSaveRequest, addStateOperations, State.addHistoryOperations, addProtoStateOperations,
    addRawBytesStateOperations, h₁, h₂, h₃, h₄, h₅]
  intro herr
  split at herr <;> cases herr

/-- As long as no timer is delivered as an event, every save finds what was counted. -/
theorem saves_in_bounds (h : DeliveryReached W H opts Tags (fun e => e.isTimerFired = false) y) :
    y.state.CountsInBounds ∧ ∀ raw, (y.state.setMarshaledNewHistory raw).getSaveRequest W ≠ .error .indexOutOfRange := by
  have hsynced := h.reached.tracked.synced
  have hbounds : y.state.CountsInBounds := ⟨h.inboxCounted, hsynced.history.added_le, hsynced.sigcert.added_le,
    hsynced.extSigCert.added_le, hsynced.signature.added_le⟩
  exact ⟨hbounds, fun raw => getSaveRequest_in_bounds { hbounds with }⟩

theorem savedTurn_reached (admits : HistoryEvent → Prop) :
    DeliveryReached plainWire trusting unsignedOptions (fun _ => True) admits savedTurn :=
  .step (.step (.start .new) (.own (o := .addToHistory startedEvent) trivial trivial))
    (.save [] (signedBytes_nil _ _) rfl)

theorem saves_in_bounds_savedTurn :
    savedTurn.state.inbox = [] ∧ (savedTurn.op (.addToInbox startedEvent)).state.CountsInBounds :=
  ⟨rfl, (saves_in_bounds ((savedTurn_reached _).step (.accept rfl))).1⟩

/-- A timer is admitted like any other event, and the save that follows panics. -/
theorem delivered_timer_panics :
    let fired : HistoryEvent := ⟨-1, none, none, .timerFired 0⟩
    let delivered := savedTurn.op (.addToInbox fired)
    DeliveryReached plainWire trusting unsignedOptions (fun _ => True) (fun _ => True) delivered ∧
    (exampleHost false).classifyEvent .empty fired savedTurn.state ⟨"", "", ""⟩ false = .inbox ∧
    delivered.state.persistableInbox.length < delivered.state.inboxAddedCount ∧
    delivered.state.getSaveRequest plainWire = .error .indexOutOfRange :=
  ⟨(savedTurn_reached _).step (.accept trivial), by decide, by decide, rfl⟩

end Dapr.Workflow
