import Dapr.Workflow.Instance
/-!
# Save and load

After a save the metadata row declares exactly the rows that exist, and a load gives the
saved state back. Two limits are part of the design: the custom status is written only
together with a change of the history, and a load refuses more than a million entries.
-/

namespace Dapr.Workflow

open Lib.Rows Lib.Runs

variable {B : Type}

/-- The number of rows a metadata row declares for a family. -/
def BackendWorkflowStateMetadata.length (md : BackendWorkflowStateMetadata) : Family → Nat
  | .inbox => md.inboxLength
  | .history => md.historyLength
  | .sigcert => md.signingCertificateLength
  | .extSigCert => md.externalSigningCertificateLength
  | .signature => md.signatureLength

theorem isSome_iff_of_holds {M : Type} {R : M → B → Prop} {rows : Nat → Option B} {items : List M}
    (h : Holds R rows items) (i : Nat) : (rows i).isSome ↔ i < items.length := by
  constructor
  · intro hs
    by_contra hi
    rw [h.none i (by omega)] at hs
    cases hs
  · intro hi
    obtain ⟨v, hv, -⟩ := h.row i items[i] (List.getElem?_eq_getElem hi)
    rw [hv]
    rfl

theorem Stored.exact {W : Wire B} {rows : Rows B} {c : Content} (h : Stored W rows c) (f : Family) (i : Nat) :
    (rows (.entry f i)).isSome ↔ i < c.metadata.length f := by
  cases f with
  | inbox => exact isSome_iff_of_holds h.inbox i
  | history => exact isSome_iff_of_holds h.history i
  | sigcert => exact isSome_iff_of_holds h.signingCertificates i
  | extSigCert => exact isSome_iff_of_holds h.externalSigningCertificates i
  | signature => exact isSome_iff_of_holds h.signatures i

/-- Enforcing signing can only object to the signatures or to this host's configuration. -/
theorem enforceSigning_err {H : ChainVerifier B} {opts : Options} {s : State B} {e : LoadError}
    (h : (enforceSigning H opts s).err = some e) : e.isConfigurationError ∨ e = .chainRejected := by
  unfold enforceSigning at h
  repeat' split at h
  all_goals cases h
  all_goals simp [LoadError.isConfigurationError]

section
variable {W : Wire B} {H : ChainVerifier B} {opts : Options} {Tags : (Key → Option ETag) → Prop} {y y' : Sys B}
  {raw : List B}

/-- Save and load over whole runs: whenever every inbox event is counted, a save leaves a
metadata row that declares exactly the rows that exist, and a later load, by any host and on
any kind of store, returns the state that was saved, with the custom status of the last save
that changed the history. The only errors left are those of signing enforcement. -/
theorem save_then_load (hr : Reached W H opts (fun _ => True) y) (hc : y.uncounted = false)
    (hraw : SignedBytes W (y.state.setMarshaledNewHistory raw)) (hs : y.save W raw = .ok y') :
    (∃ b md, y'.rows .metadata = some b ∧ W.metadata.unmarshal b = some md ∧
      ∀ f i, (y'.rows (.entry f i)).isSome ↔ i < md.length f) ∧
    (y'.status = if y.historyChanged then getValue y'.state.customStatus else y.status) ∧
    (checkLengths y'.state.metadata = .ok () → ∀ H' opts' tags, ∃ s, (y'.load W H' opts' tags).state = some s ∧
      s.content = y'.state.content ∧ getValue s.customStatus = y'.status ∧
      ∀ e, (y'.load W H' opts' tags).err = some e → e.isConfigurationError ∨ e = .chainRejected) := by
  have ht := hr.tracked
  have hst := ht.stored hc hraw hs
  have ht' := ht.save hraw hs
  obtain ⟨req, hreq, rfl⟩ := Sys.save_ok hs
  refine ⟨⟨_, y.state.metadata, (saveEffect hreq y.rows).metadata, W.metadata.round_trip _, hst.exact⟩, rfl, ?_⟩
  intro hlen H' opts' tags
  obtain ⟨s, hl, heq⟩ := load_of_stored hst ht.synced.digests ht'.optional hlen H' tags opts'
  refine ⟨s, ?_, hl.content hst, hl.customStatus, fun e he => ?_⟩
  · rw [Sys.load, heq, enforceSigning_state]
  · rw [Sys.load, heq] at he
    exact enforceSigning_err he
end

/-! ## Runs on the plain format -/

/-- A chain verifier that trusts everything. -/
def trusting : ChainVerifier Plain := ⟨fun _ _ _ => true, fun _ => none⟩

def unsignedOptions : Options := ⟨"app", "default", false⟩

def startedEvent : HistoryEvent := ⟨-1, none, none, .executionStarted ⟨"wf", none, "a", some "x", none, none, none⟩⟩

theorem signedBytes_nil (W : Wire B) (s : State B) : SignedBytes W (s.setMarshaledNewHistory []) := by
  intro j b h
  cases h

def firstTurn : Sys Plain := Sys.op (.addToHistory startedEvent) ⟨newState unsignedOptions, fun _ => none, "", false⟩

theorem reached_firstTurn (Tags : (Key → Option ETag) → Prop) :
    Reached plainWire trusting unsignedOptions Tags firstTurn :=
  .step (.start .new) (.op _ trivial)

theorem firstTurn_save_then_load : ∃ y' s, firstTurn.save plainWire [] = .ok y' ∧
    (y'.load plainWire trusting unsignedOptions fun _ => none).state = some s ∧ s.content = y'.state.content := by
  have h := save_then_load (reached_firstTurn _) rfl (signedBytes_nil _ _) rfl
  obtain ⟨s, hs, hc, -, -⟩ := h.2.2 rfl trusting unsignedOptions fun _ => none
  exact ⟨_, s, rfl, hs, hc⟩

/-- The same instance after its first save, in a turn that only sets the custom status. -/
def statusTurn : Sys Plain :=
  Sys.op (.applyRuntimeStateChanges ⟨false, [], some "half way"⟩) ((firstTurn.save plainWire []).toOption.getD firstTurn)

theorem reached_statusTurn : Reached plainWire trusting unsignedOptions (fun _ => True) statusTurn :=
  .step (.step (reached_firstTurn _) (.save [] (signedBytes_nil _ _) rfl)) (.op _ trivial)

/-- A save that changes only the custom status does not write it. -/
theorem status_lost_without_history : ∃ y' s,
    Reached plainWire trusting unsignedOptions (fun _ => True) statusTurn ∧ statusTurn.save plainWire [] = .ok y' ∧
      y'.load plainWire trusting unsignedOptions (fun _ => none) = ⟨some s, none⟩ ∧
      getValue y'.state.customStatus = "half way" ∧ getValue s.customStatus = "" :=
  ⟨_, _, reached_statusTurn, rfl, rfl, rfl, rfl⟩

end Dapr.Workflow
