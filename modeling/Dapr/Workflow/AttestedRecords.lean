import Dapr.Workflow.OwnWrites
/-!
# Recorded completions are attested

On a signing host a completion sent by another app must carry an attestation that passes for
the scheduling recorded in history. An event is followed from its delivery through the inbox
or the held completions into history; the one gap is the exemption of failures that look as
if the host had made them up itself.
-/

namespace Dapr.Workflow

open List

/-! ## Records of an event -/

/-- The same event, with or without its signer's certificate. -/
def IsRecordOf (e x : HistoryEvent) : Prop := stripSignerCertificate x = stripSignerCertificate e

theorem completionOf_stripSignerCertificate (e : HistoryEvent) :
    (completionOf (stripSignerCertificate e)).isSome = (completionOf e).isSome := by
  obtain ⟨eventId, timestamp, router, eventType⟩ := e
  cases eventType <;> rfl

theorem stripSignerCertificate_idem (e : HistoryEvent) :
    stripSignerCertificate (stripSignerCertificate e) = stripSignerCertificate e := by
  obtain ⟨eventId, timestamp, router, eventType⟩ := e
  cases eventType <;> rfl

section Records
variable {e x : HistoryEvent} {c : Completion}

/-- Only a completion is the record of a completion. -/
theorem IsRecordOf.completes (hc : completionOf e = some c) (h : IsRecordOf e x) : stepKey x ≠ none := by
  have hsome : (completionOf x).isSome = true := by
    rw [← completionOf_stripSignerCertificate, h, completionOf_stripSignerCertificate, hc]
    rfl
  obtain ⟨c', hc'⟩ := Option.isSome_iff_exists.1 hsome
  rw [stepKey_of_completion hc']
  simp

theorem Vetted.isRecordOf {o : Orchestrator} {history : List HistoryEvent} {stored : HistoryEvent}
    (hv : Vetted o history x stored) (h : IsRecordOf e stored) : IsRecordOf e x := by
  rcases hv.stored with rfl | rfl
  · exact h
  · exact (stripSignerCertificate_idem x).symm.trans h

end Records

/-! ## Runs that deliver an event -/

/-- The conditions follow one event: what is delivered and has the same record is that event,
and the engine returns no record of it that it was not handed. -/
structure Conditions.Follows (C : Conditions) (e : HistoryEvent) : Prop where
  admits : ∀ history x, C.admits history x → IsRecordOf e x → x = e
  turn : ∀ history inbox taken env rs, C.turn history inbox taken env → env.engine = .finished rs →
    ∀ x ∈ rs.newEvents, IsRecordOf e x → ∃ y ∈ inbox ++ taken.map FoldEntry.event, IsRecordOf e y

/-- Nothing saved or held is a record of the event. -/
structure Journal.Free (e : HistoryEvent) (j : Journal) : Prop where
  saves : ∀ d ∈ j.saves, ∀ x ∈ d.inbox ++ d.history, ¬ IsRecordOf e x
  memory : ∀ p ∈ j.taken ++ j.held.pending, ¬ IsRecordOf e p.event

variable {o : Orchestrator} {e : HistoryEvent} {j j' : Journal} {d : Saved} {C : Conditions} {c : Completion}

/-- Where an event comes from that a step writes or holds. -/
inductive Journal.Source (o : Orchestrator) (C : Conditions) (j : Journal) (x : HistoryEvent) : Prop where
  | saved {d : Saved} : j.durable = some d → x ∈ d.inbox ++ d.history → Source o C j x
  /-- The host made it up, and it resolves no step. -/
  | inert : stepKey x = none → Source o C j x
  | admitted {d : Saved} {e : HistoryEvent} :
    j.durable = some d → C.admits d.history e → Vetted o d.history e x → Source o C j x
  | taken {p : FoldEntry} : p ∈ j.taken → p.event = x → Source o C j x
  | engine {d : Saved} {inbox : List HistoryEvent} {env : TurnEnv} {rs : EngineState} :
    j.Turn C d inbox env → env.engine = .finished rs → x ∈ rs.newEvents → Source o C j x

/-- A cached inbox has no record of it either: a fired timer and a termination are no completions. -/
theorem Journal.Free.inbox (h : j.Free e) (hc : completionOf e = some c) (hd : j.durable = some d)
    {cached : List HistoryEvent} (hinbox : CachedInbox cached d.inbox) : ∀ x ∈ cached, ¬ IsRecordOf e x := by
  intro x hx hr
  obtain ⟨extra, heq, hterm⟩ := hinbox
  have htimer : x.isTimerFired = false := by
    by_contra ht
    exact hr.completes hc (stepKey_of_timerFired (by simpa using ht))
  have hmem : x ∈ d.inbox ++ extra := heq ▸ mem_filter.2 ⟨hx, by simp [htimer]⟩
  rcases mem_append.1 hmem with hmem | hmem
  · exact h.saves d (mem_of_head? hd) x (mem_append_left _ hmem) hr
  · exact hr.completes hc (stepKey_of_executionTerminated (hterm x hmem))

section Sources
variable {inbox : List HistoryEvent} {x : HistoryEvent}

theorem Journal.Source.cached (hd : j.durable = some d) (hinbox : CachedInbox inbox d.inbox)
    (hx : x ∈ persistable inbox) : j.Source o C x := by
  obtain ⟨extra, heq, hterm⟩ := hinbox
  rw [heq] at hx
  rcases mem_append.1 hx with hx | hx
  · exact .saved hd (mem_append_left _ hx)
  · exact .inert (stepKey_of_executionTerminated (hterm x hx))

theorem Journal.Source.history (hd : j.durable = some d) (hx : x ∈ d.history) : j.Source o C x :=
  .saved hd (mem_append_right _ hx)

/-- The new events of a turn as they go to history. -/
theorem Journal.Source.filtered {env : TurnEnv} {rs : EngineState} {keep : Bool} {filtered early : List HistoryEvent}
    {f : HistoryEvent → HistoryEvent} (ht : j.Turn C d inbox env) (hrs : env.engine = .finished rs)
    (hstrip : stripUnmatchedResolutions d.history rs.newEvents keep = (filtered, early)) (hf : PinsStart f)
    (hx : x ∈ filtered.map f) : j.Source o C x := by
  obtain ⟨y, hy, rfl⟩ := mem_map.1 hx
  rcases hf y with heq | ⟨-, hstart⟩
  · rw [filtered_eq hstrip] at hy
    rw [heq]
    exact .engine ht hrs (mem_filter.1 hy).1
  · exact .inert (stepKey_of_executionStarted hstart)

/-- What a step saves has a source. -/
theorem Journal.Step.sources (hs : Journal.Step o C j j') :
    ∀ d ∈ j'.saves, d ∈ j.saves ∨ ∀ x ∈ d.inbox ++ d.history, j.Source o C x := by
  have hsave : ∀ {d'}, (∀ x ∈ d'.inbox, j.Source o C x) → (∀ x ∈ d'.history, j.Source o C x) →
      ∀ d ∈ d' :: j.saves, d ∈ j.saves ∨ ∀ x ∈ d.inbox ++ d.history, j.Source o C x := by
    intro d' hinbox hhistory d hd
    rcases mem_cons.1 hd with rfl | hd
    · exact .inr fun x hx => (mem_append.1 hx).elim (hinbox x) (hhistory x)
    · exact .inl hd
  cases hs with
  | @enqueue d inbox e stored hd hinbox hadm _ hv =>
    refine hsave (fun x hx => ?_) fun x hx => .history hd hx
    rw [persistable, filter_append, mem_append] at hx
    rcases hx with hx | hx
    · exact .cached hd hinbox hx
    · obtain rfl := mem_singleton.1 (mem_filter.1 hx).1
      exact .admitted hd hadm hv
  | tombstone hd hm =>
    refine hsave (fun x hx => .saved hd (mem_append_left _ (mem_filter.1 hx).1)) ?_
    refine Lib.Runs.forall_mem_concat (fun x hx => .history hd hx) (.inert (stepKey_of_tamperMarker hm))
  | @unstartable d started failed hd hstart hfail =>
    refine hsave (forall_mem_nil _) fun x hx => ?_
    simp only [mem_append, mem_cons, not_mem_nil, or_false] at hx
    rcases hx with hx | rfl | rfl
    · exact .history hd hx
    · exact .inert (stepKey_of_executionStarted hstart)
    · exact .inert (stepKey_of_executionCompleted hfail)
  | move ht =>
    refine hsave (fun x hx => ?_) fun x hx => .history ht.durable hx
    rw [persistable, filter_append, mem_append] at hx
    rcases hx with hx | hx
    · exact .cached ht.durable ht.cachedInbox hx
    · obtain ⟨p, hp, heq⟩ := mem_map.1 (mem_filter.1 hx).1
      exact .taken hp heq
  | stall hd hinbox hev =>
    refine hsave (fun x hx => .cached hd hinbox hx) fun x hx => ?_
    rcases mem_append.1 hx with hx | hx
    · exact .history hd hx
    · exact .inert (stepKey_of_stalled (hev x hx))
  | stallNew ht _ _ _ hev =>
    exact hsave (fun x hx => .cached ht.durable ht.cachedInbox hx) fun x hx => .inert (stepKey_of_stalled (hev x hx))
  | abandon hd hin =>
    refine hsave (fun x hx => .inert ?_) (forall_mem_nil _)
    exact (hin x (mem_filter.1 hx).1).elim stepKey_of_executionStarted stepKey_of_eventRaised
  | partialDispatch ht _ hrs _ _ _ hstrip hf =>
    refine hsave (fun x hx => .cached ht.durable ht.cachedInbox hx) fun x hx => ?_
    exact .filtered ht hrs hstrip hf (mem_filter.1 hx).1
  | commit ht _ hrs _ hstrip hf =>
    refine hsave (fun x hx => .engine ht hrs ((early_sublist hstrip).subset (mem_filter.1 hx).1)) fun x hx => ?_
    rcases mem_append.1 hx with hx | hx
    · split at hx
      · cases hx
      · exact .history ht.durable hx
    · exact .filtered ht hrs hstrip hf hx
  | hold | take | ack | nack | flush => exact fun d hd => .inl hd

/-- An event with a source is no record of a completion that is not saved or held, unless the completion was admitted,
and so attested. -/
theorem Journal.Free.not_record (h : j.Free e) (hsigner : o.signer = true) (hc : completionOf e = some c)
    (hlocal : o.isLocalSyntheticFailure e = false) (hC : C.Follows e)
    (hnot : ¬ ∃ d ∈ j.saves, Attested o.verification.Accepts o.actorID d.history e) (hx : j.Source o C x) :
    ¬ IsRecordOf e x := by
  intro hr
  cases hx with
  | saved hd hx => exact h.saves _ (mem_of_head? hd) x hx hr
  | inert hkey => exact hr.completes hc hkey
  | @admitted d x' hd hadm hv =>
    -- it is the event itself, which was verified
    obtain rfl := hC.admits _ _ hadm (hv.isRecordOf hr)
    rcases hv.attested hsigner c hc with hsyn | hatt
    · rw [hlocal] at hsyn
      cases hsyn
    · exact hnot ⟨d, mem_of_head? hd, hatt⟩
  | taken hp heq => exact h.memory _ (mem_append_left _ hp) (heq ▸ hr)
  | engine ht hrs hx =>
    obtain ⟨y, hy, hyr⟩ := hC.turn _ _ _ _ _ ht.cond hrs x hx hr
    rcases mem_append.1 hy with hy | hy
    · exact h.inbox hc ht.durable ht.cachedInbox y hy hyr
    · obtain ⟨p, hp, rfl⟩ := mem_map.1 hy
      exact h.memory p (mem_append_left _ hp) hyr

end Sources

/-- As long as a completion is not attested for a saved history, no step records it. -/
theorem free_step (hsigner : o.signer = true) (hc : completionOf e = some c)
    (hlocal : o.isLocalSyntheticFailure e = false) (hC : C.Follows e) (h : j.Free e) (hs : Journal.Step o C j j') :
    j'.Free e ∨ ∃ d ∈ j.saves, Attested o.verification.Accepts o.actorID d.history e := by
  by_cases hatt : ∃ d ∈ j.saves, Attested o.verification.Accepts o.actorID d.history e
  · exact .inr hatt
  have hsource : ∀ {x}, j.Source o C x → ¬ IsRecordOf e x := h.not_record hsigner hc hlocal hC hatt
  refine .inl ⟨fun d hd => ?_, fun p hp => ?_⟩
  · rcases hs.sources d hd with hd | hsources
    · exact h.saves d hd
    · exact fun x hx => hsource (hsources x hx)
  · rcases hs.memory hp with hp | ⟨d, x, k, hd, -, hadm, hv, -⟩
    · exact h.memory p hp
    · exact hsource (.admitted hd hadm hv)

theorem saves_subset_step (hs : Journal.Step o C j j') : j.saves ⊆ j'.saves := by
  cases hs with
  | hold | take | ack | nack | flush => exact List.Subset.refl _
  | _ => exact subset_cons_self _ _

theorem free_run (hsigner : o.signer = true) (hc : completionOf e = some c)
    (hlocal : o.isLocalSyntheticFailure e = false) (hC : C.Follows e)
    (h : j.Free e ∨ ∃ d ∈ j.saves, Attested o.verification.Accepts o.actorID d.history e)
    (hs : Relation.ReflTransGen (Journal.Step o C) j j') :
    j'.Free e ∨ ∃ d ∈ j'.saves, Attested o.verification.Accepts o.actorID d.history e := by
  induction hs with
  | refl => exact h
  | tail _ hstep ih =>
    have hkeep : ∀ {d : Saved}, d ∈ _ → d ∈ _ := fun hd => saves_subset_step hstep hd
    rcases ih with hfree | ⟨d, hd, hatt⟩
    · rcases free_step hsigner hc hlocal hC hfree hstep with hfree' | ⟨d, hd, hatt⟩
      · exact .inl hfree'
      · exact .inr ⟨d, hkeep hd, hatt⟩
    · exact .inr ⟨d, hkeep hd, hatt⟩

/-! ## Deliveries by other apps -/

/-- Only this event is delivered, and no turn runs. -/
def onlyEvent (e : HistoryEvent) : Conditions where
  admits _ x := x = e
  admits_mono _ h := h
  turn _ _ _ _ := False

/-- Anything else is delivered, and the engine returns no record of this event that it was not
handed. -/
def otherEvents (e : HistoryEvent) : Conditions where
  admits _ x := ¬ IsRecordOf e x
  admits_mono _ h := h
  turn _ inbox taken env := ∀ rs, env.engine = .finished rs → ∀ x ∈ rs.newEvents, IsRecordOf e x →
    ∃ y ∈ inbox ++ taken.map FoldEntry.event, IsRecordOf e y

theorem onlyEvent_follows (e : HistoryEvent) : (onlyEvent e).Follows e := ⟨fun _ _ h _ => h, fun _ _ _ _ _ h => h.elim⟩

theorem otherEvents_follows (e : HistoryEvent) : (otherEvents e).Follows e :=
  ⟨fun _ _ h hr => absurd hr h, fun _ _ _ _ rs h => h rs⟩

/-- Another app delivers the event to an actor that has no record of it. Whatever happens then,
the event is in a saved inbox or history only if it is attested for a saved history. -/
def NeedsAttestation (B : Type) (o : Orchestrator) (Genuine : AttestationKind → AttestationClaim → Prop)
    (e : HistoryEvent) : Prop :=
  ∀ (a a' : Actor B) (env : Env) (d : Delivery), a.Good o → a.journal.Free e → d.caller ≠ o.appID →
    (o.deliver env a e d).2.LeadsTo o (otherEvents e) a' →
    (∃ s ∈ a'.saves, ∃ x ∈ s.inbox ++ s.history, IsRecordOf e x) →
    ∃ s ∈ a'.saves, Attested Genuine o.actorID s.history e

theorem needsAttestation {B : Type} (hsigner : o.signer = true) {Trusted : Blob → Prop}
    {Genuine : AttestationKind → AttestationClaim → Prop} (hV : o.verification.AcceptsOnlyGenuine Trusted Genuine)
    (hc : completionOf e = some c) (hlocal : o.isLocalSyntheticFailure e = false) : NeedsAttestation B o Genuine e := by
  intro a a' env d hg hfree _ hlater ⟨s, hs, x, hx, hr⟩
  have hdeliver := deliver_sim (C := onlyEvent e) env hg (fun _ _ => rfl) d
  have hafter := free_run hsigner hc hlocal (onlyEvent_follows e) (.inl hfree) hdeliver.run
  rcases free_run hsigner hc hlocal (otherEvents_follows e) hafter (hlater.journal hdeliver.good).1 with hfree' | hatt
  · exact absurd hr (hfree'.saves s hs x hx)
  · exact hatt.imp fun d ⟨hd, h⟩ => ⟨hd, h.imp fun _ _ => hV.of_accepts⟩

/-! ## The exemption -/

section Exemption
variable {B : Type}

/-- An actor whose instance waits for its first turn. -/
def createdActor (B : Type) : Actor B := ⟨none, .empty, [], [⟨[exampleStart], [], 0⟩]⟩

theorem createdActor_good (o : Orchestrator) : (createdActor B).Good o where
  cached := fun s hs => absurd hs.symm (Option.some_ne_none s)
  noTimers := by simp [createdActor, persistable, exampleStart, exampleEvent, HistoryEvent.isTimerFired]
  certs := by simp [createdActor, CertVerifyCache.Sound]

/-- Only a failure of a step can look made up. -/
theorem failed_of_isLocalSyntheticFailure (h : o.isLocalSyntheticFailure e = true) :
    (∃ f, e.eventType = .taskFailed f) ∨ ∃ f, e.eventType = .childWorkflowInstanceFailed f := by
  unfold Orchestrator.isLocalSyntheticFailure at h
  split at h
  · cases h
  · have hdetails : e.failureDetails ≠ none := by
      intro hnone
      rw [hnone] at h
      exact absurd h (by decide)
    unfold HistoryEvent.failureDetails at hdetails
    split at hdetails
    · rename_i f heq
      exact .inr ⟨f, heq⟩
    · rename_i f heq
      exact .inl ⟨f, heq⟩
    · exact absurd rfl hdetails

theorem classify_synthetic (hrun : o.runtime.isCompleted [] = false) (h : o.isLocalSyntheticFailure e = true)
    (held : Held) (etag : ETag) :
    o.classifyEvent held e (o.stateOf ⟨[exampleStart], [], 0⟩ etag : State B) ⟨"", "", ""⟩ false = .inbox := by
  rcases failed_of_isLocalSyntheticFailure h with ⟨f, hf⟩ | ⟨f, hf⟩
  · simp [Orchestrator.classifyEvent, Orchestrator.turnedAway, Orchestrator.recordedAlready, Orchestrator.stateOf, hf,
      isDuplicateCompletion, isDuplicateExternalEvent, resolves, isPresent, exampleStart, exampleEvent, isActivityResult,
      isChildResult, State.hasTamperMarker, isEventRaised, activityResolution, activityDrop, passedID, State.isCompleted,
      State.taskScheduledFor, State.scheduledFor, State.findHistoryEventByID, hrun]
  · simp [Orchestrator.classifyEvent, Orchestrator.turnedAway, Orchestrator.recordedAlready, Orchestrator.stateOf, hf,
      isDuplicateCompletion, isDuplicateExternalEvent, resolves, isPresent, exampleStart, exampleEvent, isActivityResult,
      isChildResult, State.hasTamperMarker, isEventRaised, activityResolution, activityDrop, State.taskScheduledFor,
      State.scheduledFor, State.findHistoryEventByID, hrun]

theorem load_created (o : Orchestrator) : o.loadInternalState (exampleEnv .committed) (createdActor B) =
    (.ok (some (o.stateOf ⟨[exampleStart], [], 0⟩ 1)),
      { createdActor B with cached := some (o.stateOf ⟨[exampleStart], [], 0⟩ 1) }) := by
  have hcond : o.condemns (o.stateOf ⟨[exampleStart], [], 0⟩ 1 : State B) = false := by
    have hlen : ¬ (filterValidInboxEvents [] [exampleStart]).length ≠ [exampleStart].length := by decide
    simp only [Orchestrator.condemns, Orchestrator.stateOf, hlen, decide_false, Bool.and_false]
  unfold Orchestrator.loadInternalState
  have hd : (createdActor B).durable = some ⟨[exampleStart], [], 0⟩ := rfl
  have he : (createdActor B).etag = 1 := rfl
  have hc : (createdActor B).cached = none := rfl
  simp only [hc, hd, he, hcond, exampleEnv, Bool.not_true, Bool.false_eq_true, if_false]

/-- Such a failure goes into the inbox, whoever sends it. -/
theorem deliver_synthetic (hrun : o.runtime.isCompleted [] = false) (h : o.isLocalSyntheticFailure e = true)
    (caller : String) : (o.deliver (exampleEnv .committed) (createdActor B) e (.method caller "" "" false)).2.saves =
      [⟨[exampleStart, e], [], 0⟩, ⟨[exampleStart], [], 0⟩] := by
  have htimer : e.isTimerFired = false := by
    rcases failed_of_isLocalSyntheticFailure h with ⟨f, hf⟩ | ⟨f, hf⟩ <;> simp [HistoryEvent.isTimerFired, hf]
  have hadmit : (o.admitEvent (exampleEnv .committed) (createdActor B) e ⟨"", "", ""⟩ false).2.saves =
      [⟨[exampleStart, e], [], 0⟩, ⟨[exampleStart], [], 0⟩] := by
    unfold Orchestrator.admitEvent
    simp only [load_created, classify_synthetic hrun h, Orchestrator.verifyAndAbsorbAttestation, h]
    have hstart : exampleStart.isTimerFired = false := rfl
    simp [Actor.save, Actor.etag, createdActor, State.addToInbox, Orchestrator.stateOf, exampleEnv, State.saved,
      State.persistableInbox, htimer, hstart]
  simpa [Orchestrator.deliver, exampleEnv, Orchestrator.checkAccessPolicy] using hadmit

/-- A completion that another app sends needs an attestation to be recorded, if and only if it
does not pass for a failure the host made up itself. -/
theorem needsAttestation_iff {o : Orchestrator} (hsigner : o.signer = true) (hrun : o.runtime.isCompleted [] = false)
    {Trusted : Blob → Prop} {Genuine : AttestationKind → AttestationClaim → Prop}
    (hV : o.verification.AcceptsOnlyGenuine Trusted Genuine) {e : HistoryEvent} {c : Completion}
    (hc : completionOf e = some c) : NeedsAttestation B o Genuine e ↔ o.isLocalSyntheticFailure e = false := by
  constructor
  · intro hneeds
    by_contra hlocal
    rw [Bool.not_eq_false] at hlocal
    have hcaller : o.appID ++ "-peer" ≠ o.appID := by
      intro heq
      have hlen := congrArg String.length heq
      simp at hlen
    have hfree : (createdActor B).journal.Free e := by
      refine ⟨?_, by simp [Actor.journal, Actor.turnJournal, createdActor, Held.empty]⟩
      intro d hd x hx hr
      obtain rfl := mem_singleton.1 hd
      obtain rfl := mem_singleton.1 hx
      exact hr.completes hc rfl
    have hsaves := deliver_synthetic (B := B) hrun hlocal (o.appID ++ "-peer")
    -- the event is in the inbox, and no saved history has its scheduling
    obtain ⟨d, hd, c', att, scheduling, recorded, hc', hatt, hfind, -⟩ :=
      hneeds (createdActor B) _ (exampleEnv .committed) (.method (o.appID ++ "-peer") "" "" false)
        (createdActor_good o) hfree hcaller .refl
        ⟨⟨[exampleStart, e], [], 0⟩, by rw [hsaves]; exact .head _, e, by simp, rfl⟩
    rw [hsaves] at hd
    simp only [mem_cons, not_mem_nil, or_false] at hd
    rcases hd with rfl | rfl <;> cases hfind
  · exact needsAttestation hsigner hV hc

end Exemption

/-- Verification in a world with one signer, whose signature is its certificate. -/
def oneSigner : HistoryVerification where
  certDigest cert := cert
  verifyAttestation _ claim _ chainVerified :=
    if claim.attestation.signature = claim.signerCertDER ∧ (chainVerified ∨ claim.signerCertDER = [1]) then
      .ok ⟨1, "", 0, .completed, "", claim.signerCertDER, []⟩
    else .error "unknown signer"
  unmarshalPayload _ := none
  canonicalSpecVersion := 1
  verifySignature _ _ _ := false
  verifyCertChainOfTrust cert _ := cert = [1]
  ioDigest _ _ := []
  canonicalSuccessOutput _ := []
  canonicalFailureOutput _ := none
  leafValidity _ := none

/-- The only signer signs with its certificate. -/
def oneSigner.Genuine (_ : AttestationKind) (claim : AttestationClaim) : Prop :=
  claim.attestation.signature = claim.signerCertDER ∧ claim.signerCertDER = [1]

theorem oneSigner_acceptsOnlyGenuine : oneSigner.AcceptsOnlyGenuine (fun cert => cert = [1]) oneSigner.Genuine where
  genuine := by
    intro kind claim ts chainVerified payload hok htrust
    simp only [oneSigner] at hok
    split at hok
    · rename_i hsig
      exact ⟨hsig.1, hsig.2.elim htrust id⟩
    · cases hok
  trusted := by
    intro kind claim ts payload hok
    simp only [oneSigner] at hok
    split at hok
    · rename_i hsig
      simpa using hsig.2
    · cases hok
  digest_injective := fun _ _ h => h

def signingHost : Orchestrator := { exampleHost true with verification := oneSigner }

theorem needsAttestation_iff_examples :
    NeedsAttestation Unit signingHost oneSigner.Genuine (exampleResult 0) ∧
      ¬ NeedsAttestation Unit signingHost oneSigner.Genuine (exampleDenied 0) := by
  constructor
  · exact (needsAttestation_iff rfl rfl oneSigner_acceptsOnlyGenuine rfl).2 rfl
  · intro h
    exact absurd ((needsAttestation_iff rfl rfl oneSigner_acceptsOnlyGenuine rfl).1 h) (by decide)

/-- Another app sends a failure that names the victim as its source, without any attestation. -/
theorem forged_failure_recorded :
    let a := (signingHost.deliver (exampleEnv .committed) exampleActor (exampleDenied 0) (.method "peer" "" "" false)).2
    exampleActor.Created ∧ "peer" ≠ signingHost.appID ∧
      (∃ c, completionOf (exampleDenied 0) = some c ∧ c.attestation = none) ∧
      ∃ d ∈ a.saves, exampleDenied 0 ∈ d.inbox := by
  refine ⟨⟨rfl, rfl, rfl, exampleStart, 0, rfl, rfl⟩, by decide, ⟨_, rfl, rfl⟩, _, .head _, by decide⟩

end Dapr.Workflow
