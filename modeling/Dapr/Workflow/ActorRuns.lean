import Dapr.Workflow.Journal
/-!
# Runs of an actor are runs of its journal

Each call of an actor is followed through the model of the code, and shown to do to the saves
and the held completions what a few steps of the journal do. On the way the cache is shown to
be no more than what was saved.
-/

namespace Dapr.Workflow

open List

variable {B : Type}

/-! ## What a cached state knows -/

/-- A state in memory and the saved record: it is of the same generation, its history is the
saved one up to a tombstone, and if its token is current it is the saved record. -/
structure Knows (a : Actor B) (s : State B) (d : Saved) : Prop where
  durable : a.durable = some d
  generation : s.generation = d.generation
  history : s.history <+: d.history
  marked : ∀ e ∈ d.history.drop s.history.length, isTamperMarker e = true
  inbox : CachedInbox s.inbox d.inbox
  etag : ∃ n, s.metadataETag = some n ∧ n ≤ a.etag
  same : s.metadataETag = some a.etag → s.history = d.history

variable {o : Orchestrator} {C : Conditions} {a a' : Actor B} {s s' : State B} {d : Saved} {e : HistoryEvent}
variable {outcome : SaveOutcome} (env : TurnEnv)

theorem Knows.current (h : Knows a s d) (ht : s.metadataETag = some a.etag) :
    s.history = d.history ∧ CachedInbox s.inbox d.inbox := ⟨h.same ht, h.inbox⟩

/-- What the actor has cached is what it saved last. -/
structure Actor.Good (o : Orchestrator) (a : Actor B) : Prop where
  cached : ∀ s, a.cached = some s → ∃ d, Knows a s d
  noTimers : ∀ d ∈ a.saves, persistable d.inbox = d.inbox
  certs : a.certVerifyCache.Sound o.verification

namespace Actor

/-- The journal while a turn has completions in its hands. -/
def turnJournal (a : Actor B) (taken : List FoldEntry) (committed : Bool) : Journal :=
  ⟨a.saves, a.held, taken, committed⟩

def journal (a : Actor B) : Journal := a.turnJournal [] false

/-- The saved history has only grown. -/
def Grows (a a' : Actor B) : Prop :=
  ∀ d', a'.durable = some d' → ∃ d, a.durable = some d ∧ d.history <+: d'.history

theorem Grows.trans {b c : Actor B} (h : a.Grows b) (h' : b.Grows c) : a.Grows c := by
  intro d₂ hd₂
  obtain ⟨d₁, hd₁, hp₁⟩ := h' d₂ hd₂
  obtain ⟨d, hd, hp⟩ := h d₁ hd₁
  exact ⟨d, hd, hp.trans hp₁⟩

theorem Grows.of_saves (h : a'.saves = a.saves) : a.Grows a' := by
  intro d hd
  exact ⟨d, (congrArg List.head? h).symm.trans hd, prefix_refl _⟩

end Actor

open Actor

theorem Knows.of_saves (h : Knows a s d) (hs : a'.saves = a.saves) : Knows a' s d := by
  have hd : a'.durable = a.durable := congrArg List.head? hs
  have he : a'.etag = a.etag := congrArg List.length hs
  exact ⟨hd ▸ h.durable, h.generation, h.history, h.marked, h.inbox, he ▸ h.etag, he ▸ h.same⟩

/-- Certificates of other apps do not matter to what a state knows. -/
theorem Knows.absorb (h : Knows a s d) (hab : AbsorbsCert s s') : Knows a s' d where
  durable := h.durable
  generation := hab.generation.trans h.generation
  history := hab.history ▸ h.history
  marked := hab.history ▸ h.marked
  inbox := hab.inbox ▸ h.inbox
  etag := hab.etag ▸ h.etag
  same := fun ht => hab.history.trans (h.same (hab.etag ▸ ht))

/-- An event put into the cached inbox past the counters leaves the rest as it is. -/
theorem Knows.appendInbox (h : Knows a s d) (he : e.isTimerFired = true ∨ isExecutionTerminated e = true) :
    Knows a (s.appendInbox e) d where
  durable := h.durable
  generation := h.generation
  history := h.history
  marked := h.marked
  etag := h.etag
  same := h.same
  inbox := by
    obtain ⟨extra, heq, hx⟩ := h.inbox
    show CachedInbox (s.inbox ++ [e]) d.inbox
    rcases he with he | he
    · exact ⟨extra, by simpa [persistable, he] using heq, hx⟩
    · refine ⟨extra ++ persistable [e], by simp only [persistable] at heq ⊢; simp [heq], ?_⟩
      intro x hmem
      rcases mem_append.1 hmem with hmem | hmem
      · exact hx x hmem
      · have := (mem_filter.1 hmem).1
        rw [mem_singleton] at this
        exact this ▸ he

theorem Actor.Good.invalidate (hg : a.Good o) : a.invalidateCachedState.Good o where
  cached := fun s hs => by cases hs
  noTimers := hg.noTimers
  certs := hg.certs

theorem Actor.Good.setCached (hg : a.Good o) (hk : Knows a s d) : { a with cached := some s }.Good o where
  cached := by
    intro s' hs'
    cases hs'
    exact ⟨d, hk.of_saves rfl⟩
  noTimers := hg.noTimers
  certs := hg.certs

theorem Actor.Good.setHeld (hg : a.Good o) (held : Held) : { a with held := held }.Good o :=
  ⟨fun s hs => (hg.cached s hs).imp fun _ hk => hk.of_saves rfl, hg.noTimers, hg.certs⟩

theorem persistable_persistable (inbox : List HistoryEvent) : persistable (persistable inbox) = persistable inbox := by
  simp [persistable]

theorem knows_written (hd : a.durable = some d) (hs : s.saved = d) (hh : s'.history = s.history)
    (hi : s'.inbox = s.inbox) (hgen : s'.generation = s.generation) (ht : s'.metadataETag = some a.etag) :
    Knows a s' d where
  durable := hd
  generation := by rw [hgen, ← hs]; rfl
  history := by rw [hh, ← hs]; exact prefix_refl _
  marked := by
    rw [hh, ← hs]
    simp [State.saved]
  inbox := by
    rw [hi, ← hs]
    exact ⟨[], by simp [State.saved, State.persistableInbox, persistable], by simp⟩
  etag := ⟨_, ht, Nat.le_refl _⟩
  same := fun _ => by rw [hh, ← hs]; rfl

theorem good_write (hg : a.Good o) {cached : Option (State B)}
    (hc : ∀ s', cached = some s' → s'.history = s.history ∧ s'.inbox = s.inbox ∧ s'.generation = s.generation ∧
      s'.metadataETag = some (a.saves.length + 1)) :
    ({ a with saves := s.saved :: a.saves, cached := cached } : Actor B).Good o where
  cached := by
    intro s' hs'
    obtain ⟨hh, hi, hgen, ht⟩ := hc s' hs'
    exact ⟨s.saved, knows_written rfl rfl hh hi hgen ht⟩
  noTimers := forall_mem_cons.2 ⟨persistable_persistable s.inbox, hg.noTimers⟩
  certs := hg.certs

/-- A save either writes the state, if its token is current, or leaves the store as it is. -/
theorem Actor.Good.save (hg : a.Good o) {outcome : SaveOutcome} {ok : Bool} (h : a.save s outcome = (ok, a')) :
    a'.Good o ∧ a'.held = a.held ∧
      (a'.saves = a.saves ∧ ok = false ∨ s.metadataETag = some a.etag ∧ a'.saves = s.saved :: a.saves) := by
  unfold Actor.save at h
  split at h
  · cases h
    exact ⟨hg.invalidate, rfl, .inl ⟨rfl, rfl⟩⟩
  · rename_i ht
    rw [not_not] at ht
    cases outcome with
    | committed =>
      cases h
      refine ⟨good_write hg ?_, rfl, .inr ⟨ht, rfl⟩⟩
      intro s' hs'
      cases hs'
      exact ⟨rfl, rfl, rfl, rfl⟩
    | failed =>
      cases h
      exact ⟨hg.invalidate, rfl, .inl ⟨rfl, rfl⟩⟩
    | lost =>
      cases h
      exact ⟨good_write hg (fun s' hs' => by cases hs'), rfl, .inr ⟨ht, rfl⟩⟩

/-! ## Loads -/

section Advances
variable {taken : List FoldEntry} {c c' ok : Bool} {d' : Saved}

/-- Part of a call: the actor ends up good, and its journal has made a run. The completions that a turn has taken are
kept, and perhaps committed. -/
structure Advances (o : Orchestrator) (C : Conditions) (taken : List FoldEntry) (c c' : Bool) (a a' : Actor B) : Prop where
  good : a'.Good o
  run : Relation.ReflTransGen (Journal.Step o C) (a.turnJournal taken c) (a'.turnJournal taken c')

/-- Nothing that the journal shows has changed. -/
theorem Advances.quiet (hg : a'.Good o) (hs : a'.saves = a.saves) (hh : a'.held = a.held) : Advances o C taken c c a a' := by
  refine ⟨hg, ?_⟩
  rw [turnJournal, turnJournal, hs, hh]

theorem Advances.of_write (hg : a'.Good o) (hs : a'.saves = d' :: a.saves) (hh : a'.held = a.held)
    (hstep : Journal.Step o C (a.turnJournal taken c) ⟨d' :: a.saves, a.held, taken, c'⟩) :
    Advances o C taken c c' a a' := by
  refine ⟨hg, .single ?_⟩
  rw [turnJournal, turnJournal, hs, hh]
  exact hstep

/-- A save that is a step of the journal if the store takes it. -/
theorem Advances.of_save (hg : a.Good o) (h : a.save s outcome = (ok, a')) (hstep : s.metadataETag = some a.etag →
      Journal.Step o C (a.turnJournal taken c) ⟨s.saved :: a.saves, a.held, taken, c'⟩) :
    ∃ c₁, (ok = true → c₁ = c') ∧ (c₁ = c ∨ c₁ = c') ∧ Advances o C taken c c₁ a a' := by
  obtain ⟨hg', hheld, ⟨hsame, rfl⟩ | ⟨ht, hwrite⟩⟩ := hg.save h
  · exact ⟨c, nofun, .inl rfl, .quiet hg' hsame hheld⟩
  · exact ⟨c', fun _ => rfl, .inr rfl, .of_write hg' hwrite hheld (hstep ht)⟩

theorem Advances.keep (hg : a.Good o) (hstep : s.metadataETag = some a.etag →
      Journal.Step o C (a.turnJournal taken c) ((a.turnJournal taken c).save s.saved)) :
    Advances o C taken c c a (a.save s outcome).2 := by
  obtain ⟨c₁, -, rfl | rfl, h⟩ := Advances.of_save hg (Eq.refl (a.save s outcome)) hstep <;> exact h

end Advances

/-- What a request does outside of a turn. -/
structure Sim (o : Orchestrator) (C : Conditions) (a a' : Actor B) : Prop extends Advances o C [] false false a a' where
  grows : a.Grows a'

theorem Sim.trans {b c : Actor B} (h : Sim o C a b) (h' : Sim o C b c) : Sim o C a c :=
  ⟨⟨h'.good, h.run.trans h'.run⟩, h.grows.trans h'.grows⟩

theorem Sim.quiet (hg : a'.Good o) (hs : a'.saves = a.saves) (hh : a'.held = a.held) : Sim o C a a' :=
  ⟨.quiet hg hs hh, .of_saves hs⟩

theorem Sim.refl (hg : a.Good o) : Sim o C a a := .quiet hg rfl rfl

theorem Sim.of_write {d' : Saved} (hg : a'.Good o) (hs : a'.saves = d' :: a.saves) (hh : a'.held = a.held)
    (hd : a.durable = some d) (hp : d.history <+: d'.history)
    (hstep : Journal.Step o C a.journal (a.journal.save d')) : Sim o C a a' := by
  refine ⟨.of_write hg hs hh hstep, fun d₁ hd₁ => ?_⟩
  have hd' : a'.durable = some d' := congrArg List.head? hs
  cases hd'.symm.trans hd₁
  exact ⟨d, hd, hp⟩

theorem Sim.of_save (hg : a.Good o) {ok : Bool} (h : a.save s outcome = (ok, a'))
    (hd : a.durable = some d) (hp : s.metadataETag = some a.etag → d.history <+: s.history)
    (hstep : s.metadataETag = some a.etag → Journal.Step o C a.journal (a.journal.save s.saved)) : Sim o C a a' := by
  obtain ⟨hg', hheld, ⟨hsame, -⟩ | ⟨ht, hwrite⟩⟩ := hg.save h
  · exact .quiet hg' hsame hheld
  · exact .of_write hg' hwrite hheld hd (hp ht) (hstep ht)

theorem knows_stateOf (hg : a.Good o) (hd : a.durable = some d) : Knows a (o.stateOf d a.etag) d where
  durable := hd
  generation := rfl
  history := prefix_refl _
  marked := by simp [Orchestrator.stateOf]
  inbox := by
    refine ⟨[], ?_, by simp⟩
    rw [append_nil]
    exact hg.noTimers d (mem_of_head? hd)
  etag := ⟨_, rfl, Nat.le_refl _⟩
  same := fun _ => rfl

theorem isTamperMarker_tamperMarker (cause : String) (now : Int) :
    isTamperMarker (Orchestrator.tamperMarker cause now) = true := by
  simp [isTamperMarker, Orchestrator.tamperMarker, HistoryEvent.getExecutionCompleted]

/-- A cached state that a tombstone was written behind: its token is no longer current. -/
theorem Knows.outdated (hk : Knows a s d) {marker : HistoryEvent} (hm : isTamperMarker marker = true)
    (htimers : persistable d.inbox = d.inbox)
    (hs : a'.saves = ⟨persistable d.inbox, d.history ++ [marker], d.generation⟩ :: a.saves) :
    Knows a' s ⟨persistable d.inbox, d.history ++ [marker], d.generation⟩ := by
  have hetag : a'.etag = a.etag + 1 := congrArg List.length hs
  obtain ⟨n, hn, hle⟩ := hk.etag
  refine ⟨congrArg List.head? hs, hk.generation, hk.history.trans (prefix_append _ _), ?_, ?_,
    ⟨n, hn, hetag ▸ Nat.le_succ_of_le hle⟩, fun ht => ?_⟩
  · rw [drop_append_of_le_length hk.history.length_le]
    exact Lib.Runs.forall_mem_concat hk.marked hm
  · rw [htimers]
    exact hk.inbox
  · have hn' : n = a.etag + 1 := hetag ▸ Option.some.inj (hn.symm.trans ht)
    exact absurd (hn' ▸ hle) (Nat.not_succ_le_self _)

/-- Condemning the saved record adds the marker to its history, or changes nothing. A state is
returned only if it is cached. -/
theorem tombstone_sim {env : Env} (hg : a.Good o) (hd : a.durable = some d) {cause : String}
    {r : Except OrchError (State B)}
    (h : Orchestrator.tombstoneTamperedState env a (o.stateOf d a.etag) cause = (r, a')) :
    Sim o C a a' ∧ ∀ s, r = .ok s → a'.cached = some s := by
  have hm := isTamperMarker_tamperMarker cause env.now
  have hrun : ∀ b : Actor B, b.Good o → b.saves = ⟨persistable d.inbox,
      d.history ++ [Orchestrator.tamperMarker cause env.now], d.generation⟩ :: a.saves → b.held = a.held → Sim o C a b :=
    fun b hb hs hh =>
      .of_write hb hs hh hd (prefix_append _ _) (.tombstone hd hm (by decide : (-1 : Int) < 0))
  unfold Orchestrator.tombstoneTamperedState at h
  split at h
  · cases h
    refine ⟨.quiet (hg.setCached (knows_stateOf hg hd)) rfl rfl, ?_⟩
    rintro s ⟨⟩
    rfl
  · dsimp only at h
    split at h
    · cases h
      exact ⟨.refl hg, fun s hs => by cases hs⟩
    · split at h
      · cases h
        refine ⟨hrun _ (good_write hg ?_) rfl rfl, ?_⟩
        · rintro s ⟨⟩
          exact ⟨rfl, rfl, rfl, rfl⟩
        · rintro s ⟨⟩
          rfl
      · cases h
        exact ⟨.refl hg, fun s hs => by cases hs⟩
      · cases h
        refine ⟨hrun _ ⟨fun s hs => ?_, ?_, hg.certs⟩ rfl rfl, fun s hs => by cases hs⟩
        · obtain ⟨d₀, hk⟩ := hg.cached s hs
          obtain rfl := Option.some.inj (hk.durable.symm.trans hd)
          exact ⟨_, hk.outdated hm (hg.noTimers _ (mem_of_head? hd)) rfl⟩
        · exact forall_mem_cons.2 ⟨persistable_persistable d.inbox, hg.noTimers⟩

/-- A load leaves the state it returns in the cache; if it condemns the record, it saves that. -/
theorem load_sim {env : Env} (hg : a.Good o) {r : Except OrchError (Option (State B))}
    (h : o.loadInternalState env a = (r, a')) : Sim o C a a' ∧ ∀ s, r = .ok (some s) → a'.cached = some s := by
  unfold Orchestrator.loadInternalState at h
  split at h
  · rename_i s hs
    cases h
    refine ⟨.refl hg, ?_⟩
    rintro s' ⟨⟩
    exact hs
  · split at h
    · cases h
      exact ⟨.refl hg, fun s hs => by cases hs⟩
    · split at h
      · cases h
        exact ⟨.refl hg, fun s hs => by cases hs⟩
      · rename_i d hd
        dsimp only at h
        split at h
        · split at h
          · rename_i htomb
            cases h
            exact ⟨(tombstone_sim hg hd htomb).1, fun s hs => by cases hs⟩
          · rename_i s a₁ htomb
            cases h
            obtain ⟨hsim, hc⟩ := tombstone_sim hg hd htomb
            refine ⟨hsim, ?_⟩
            rintro s' ⟨⟩
            exact hc _ rfl
        · cases h
          refine ⟨.quiet (hg.setCached (knows_stateOf hg hd)) rfl rfl, ?_⟩
          rintro s ⟨⟩
          rfl

/-! ## Admission -/

theorem resolves_of_activityResult (h : isActivityResult e = true) :
    ∃ id exec, activityResolution e = some (id, exec) ∧ resolves e = some ⟨.task, id⟩ := by
  unfold isActivityResult at h
  split at h
  · rename_i b heq
    exact ⟨b.taskScheduledId, b.taskExecutionId, by simp [activityResolution, heq], by simp [resolves, heq]⟩
  · rename_i b heq
    exact ⟨b.taskScheduledId, b.taskExecutionId, by simp [activityResolution, heq], by simp [resolves, heq]⟩
  · cases h

theorem isScheduled_of_find {history : List HistoryEvent} {id : Int} {x : HistoryEvent} {b : TaskScheduledEvent}
    (hf : history.find? (fun e => e.eventId = id) = some x) (hb : x.getTaskScheduled = some b) :
    isScheduled history ⟨.task, id⟩ = true := by
  have hmem := mem_of_find?_eq_some hf
  have hid : x.eventId = id := by simpa using find?_some hf
  refine any_eq_true.2 ⟨x, hmem, ?_⟩
  simp [schedules_of_taskScheduled hb, hid]

theorem isScheduled_mono {h h' : List HistoryEvent} (hp : h <+: h') {k : Scheduling}
    (hk : isScheduled h k = true) : isScheduled h' k = true := by
  obtain ⟨x, hx, hs⟩ := any_eq_true.1 hk
  exact any_eq_true.2 ⟨x, hp.subset hx, hs⟩

section Classify
variable {held : Held} {sender : CompletionSender} {canFold : Bool}

theorem turnedAway_refuses {v : Admission} (h : o.turnedAway e s sender = some v) : v ≠ .inbox ∧ v ≠ .fold := by
  unfold Orchestrator.turnedAway at h
  dsimp only at h
  split_ifs at h <;> obtain rfl := Option.some.inj h <;> exact ⟨by simp, by simp⟩

theorem recordedAlready_refuses {v : Admission} (h : o.recordedAlready e s = some v) : v ≠ .inbox ∧ v ≠ .fold := by
  unfold Orchestrator.recordedAlready at h
  split_ifs at h <;> obtain rfl := Option.some.inj h <;> exact ⟨by simp, by simp⟩

theorem not_duplicate_of_recordedAlready (h : o.recordedAlready e s = none) :
    isDuplicateCompletion e s.history s.inbox = false := by
  unfold Orchestrator.recordedAlready at h
  split_ifs at h with hd
  simp only [Bool.or_eq_true, not_or, Bool.not_eq_true] at hd
  exact hd.1

/-- What is neither dropped nor refused goes to the inbox, or is held; it is not recorded yet. -/
theorem classify_cases {v : Admission} (h : o.classifyEvent held e s sender canFold = v) (hv : v = .inbox ∨ v = .fold) :
    o.turnedAway e s sender = none ∧ isDuplicateCompletion e s.history s.inbox = false ∧
      activityDrop s (activityResolution e) (s.taskScheduledFor e) = none ∧
      (v = .fold → (canFold && isActivityResult e && !o.runtime.isStalled s.history &&
        (s.taskScheduledFor e).isSome) = true ∧ held.foldPendingEntry e = none) := by
  unfold Orchestrator.classifyEvent at h
  cases haway : o.turnedAway e s sender with
  | some v' =>
    simp only [haway] at h
    obtain ⟨h1, h2⟩ := turnedAway_refuses haway
    rcases hv with hv | hv
    · exact absurd (h.trans hv) h1
    · exact absurd (h.trans hv) h2
  | none =>
    cases hrec : o.recordedAlready e s with
    | some v' =>
      simp only [haway, hrec] at h
      obtain ⟨h1, h2⟩ := recordedAlready_refuses hrec
      rcases hv with hv | hv
      · exact absurd (h.trans hv) h1
      · exact absurd (h.trans hv) h2
    | none =>
      cases hdrop : activityDrop s (activityResolution e) (s.taskScheduledFor e) with
      | some reason =>
        simp only [haway, hrec, hdrop] at h
        rcases hv with rfl | rfl <;> cases h
      | none =>
        refine ⟨rfl, not_duplicate_of_recordedAlready hrec, rfl, ?_⟩
        rintro rfl
        simp only [haway, hrec, hdrop] at h
        split at h
        · cases h
        · split at h
          · cases h
          · rename_i hhold
            split at h
            · cases h
            · rename_i hpending
              exact ⟨by simpa only [Bool.not_eq_true, Bool.not_eq_false'] using hhold, hpending⟩

/-- What is held is the result of an activity that history schedules, and the first one held
for it. -/
theorem classify_fold (h : o.classifyEvent held e s sender canFold = .fold) :
    held.foldPendingEntry e = none ∧ ∃ k, resolves e = some k ∧ k.kind = .task ∧ isScheduled s.history k = true := by
  obtain ⟨-, -, -, hfold⟩ := classify_cases h (.inr rfl)
  obtain ⟨hhold, hpending⟩ := hfold rfl
  simp only [Bool.and_eq_true] at hhold
  obtain ⟨⟨⟨-, hact⟩, -⟩, hsched⟩ := hhold
  obtain ⟨id, exec, hres, hk⟩ := resolves_of_activityResult hact
  obtain ⟨b, hb⟩ := Option.isSome_iff_exists.1 hsched
  obtain ⟨x, hx, hxb⟩ := Option.bind_eq_some_iff.1 hb
  rw [State.scheduledFor, hres] at hx
  exact ⟨hpending, _, hk, rfl, isScheduled_of_find hx hxb⟩

end Classify

/-- What a successful verification says of the event. -/
theorem vetted_of_verified {now : Int} {cache cache' : CertVerifyCache} {e' : HistoryEvent}
    (hcache : cache.Sound o.verification)
    (h : verifyInboxAttestation o.verification o.signer o.actorID now cache s e = (.ok (s', e'), cache')) :
    AbsorbsCert s s' ∧ Vetted o s.history e e' := by
  cases hsigner : o.signer with
  | false =>
    simp only [hsigner] at h
    obtain ⟨⟨rfl, rfl⟩, -⟩ := h
    exact ⟨.refl s, .inl rfl, fun hs => absurd (hsigner.symm.trans hs) Bool.false_ne_true⟩
  | true =>
    rw [hsigner] at h
    cases hc : completionOf e with
    | none =>
      simp only [verifyInboxAttestation, hc, Bool.not_true, Bool.false_eq_true, if_false, Prod.mk.injEq,
        Except.ok.injEq] at h
      obtain ⟨⟨rfl, rfl⟩, -⟩ := h
      exact ⟨.refl s, .inl rfl, fun _ c hc' => absurd (hc.symm.trans hc') (Option.some_ne_none c).symm⟩
    | some c =>
      obtain ⟨rfl, att, -, hver⟩ := verifyInboxAttestation_ok hc h
      obtain ⟨-, -, -, -, -, -, hab⟩ := verifyCompletion_ok hver
      exact ⟨hab, .inr rfl, fun _ _ _ => .inr (attested_of_verified hcache hc h)⟩

/-- Verification changes neither saves nor held completions, but for a tombstone. The state
it returns is cached. -/
theorem verify_sim {env : Env} (hg : a.Good o) (hs : a.cached = some s)
    {r : Except OrchError (State B × HistoryEvent)} (h : o.verifyAndAbsorbAttestation env a s e = (r, a')) :
    Sim o C a a' ∧ ∀ s' e', r = .ok (s', e') → a'.saves = a.saves ∧ a'.held = a.held ∧ a'.cached = some s' ∧
      AbsorbsCert s s' ∧ Vetted o s.history e e' := by
  -- a cache that grows and a cached state that is dropped are not seen
  have hcache : ∀ cache : CertVerifyCache, cache.Sound o.verification → Sim o C a { a with certVerifyCache := cache } :=
    fun cache hs =>
      .quiet ⟨fun s' hs' => (hg.cached s' hs').imp fun _ hk => hk.of_saves rfl, hg.noTimers, hs⟩ rfl rfl
  unfold Orchestrator.verifyAndAbsorbAttestation at h
  dsimp only at h
  split at h
  · rename_i hsyn
    cases h
    refine ⟨.refl hg, ?_⟩
    intro s' e' hr
    cases Except.ok.inj hr
    exact ⟨rfl, rfl, hs, .refl s, .inl rfl, fun _ _ _ => .inl hsyn⟩
  · split at h
    · rename_i s₁ e₁ cache hver
      obtain ⟨hab, hv⟩ := vetted_of_verified hg.certs hver
      cases h
      refine ⟨.quiet ⟨?_, hg.noTimers, hg.certs.verified hver⟩ rfl rfl, ?_⟩
      · intro s' hs'
        cases hs'
        obtain ⟨d, hk⟩ := hg.cached s hs
        exact ⟨d, (hk.absorb hab).of_saves rfl⟩
      · intro s' e' hr
        cases Except.ok.inj hr
        exact ⟨rfl, rfl, rfl, hab, hv⟩
    · rename_i verr cache hver
      have hsound : CertVerifyCache.Sound o.verification cache := hg.certs.verified hver
      split at h
      · cases h
        exact ⟨hcache cache hsound, fun s' e' hr => by cases hr⟩
      · split at h
        · cases h
          exact ⟨hcache cache hsound, fun s' e' hr => by cases hr⟩
        · rename_i d hd
          split at h
          · rename_i cache₁ hver₁
            cases h
            exact ⟨.quiet ⟨(fun s' hs' => by cases hs'), hg.noTimers, hsound.verified hver₁⟩ rfl rfl, fun s' e' hr => by cases hr⟩
          · rename_i fverr cache₁ hver₁
            have hsim := hcache cache₁ (hsound.verified hver₁)
            split at h
            · split at h
              · split at h <;> obtain ⟨rfl, rfl⟩ := Prod.mk.inj h <;>
                  exact ⟨hsim, fun s' e' hr => by cases hr⟩
              · cases h
                exact ⟨hsim, fun s' e' hr => by cases hr⟩
            · split at h <;> rename_i htomb <;> obtain ⟨rfl, rfl⟩ := Prod.mk.inj h <;>
                exact ⟨hsim.trans (tombstone_sim hsim.good hd htomb).1, fun s' e' hr => by cases hr⟩

theorem Vetted.mono {h h' : List HistoryEvent} {e' : HistoryEvent} (hv : Vetted o h e e') (hp : h <+: h') :
    Vetted o h' e e' :=
  ⟨hv.stored, fun hs c hc => (hv.attested hs c hc).imp id (.mono hp)⟩

/-- What may be delivered next to a history may be delivered after a run that only adds to it. -/
theorem Sim.admits (h : Sim o C a a') (hC : ∀ d, a.durable = some d → C.admits d.history e) :
    ∀ d, a'.durable = some d → C.admits d.history e := by
  intro d' hd'
  obtain ⟨d, hd, hp⟩ := h.grows d' hd'
  exact C.admits_mono hp (hC d hd)

/-- Admitting an event drops, refuses, holds or saves it. -/
theorem admitEvent_sim (env : Env) (hg : a.Good o) (hC : ∀ d, a.durable = some d → C.admits d.history e)
    (sender : CompletionSender) (canFold : Bool) : Sim o C a (o.admitEvent env a e sender canFold).2 := by
  unfold Orchestrator.admitEvent
  rcases hload : o.loadInternalState env a with ⟨r, a₁⟩
  obtain ⟨hsim, hcached⟩ := load_sim hg hload
  rcases r with err | _ | s
  · exact hsim
  · exact hsim
  · have hs := hcached s rfl
    obtain ⟨d, hk⟩ := hsim.good.cached s hs
    dsimp only
    split
    · exact hsim
    · -- a drop: at most the cache is invalidated
      split
      · exact hsim
      · split
        · exact hsim
        · exact hsim.trans (.quiet hsim.good.invalidate rfl rfl)
        · exact hsim.trans (.quiet hsim.good.invalidate rfl rfl)
        · exact hsim
    · split <;> exact hsim
    · rename_i hclass
      obtain ⟨hpending, k, hres, htask, hsched⟩ := classify_fold hclass
      rcases hver : o.verifyAndAbsorbAttestation env a₁ s e with ⟨rv, a₂⟩
      obtain ⟨hsim₂, hok⟩ := verify_sim hsim.good hs hver
      rcases rv with err | ⟨s', e'⟩
      · exact hsim.trans hsim₂
      · obtain ⟨hsaves, hheld, -, hab, hv⟩ := hok s' e' rfl
        refine hsim.trans (hsim₂.trans ⟨⟨hsim₂.good.setHeld _, .single ?_⟩, .of_saves rfl⟩)
        have hd₂ : a₂.journal.durable = some d := (congrArg List.head? hsaves).trans hk.durable
        have hstep := Journal.Step.hold hd₂ rfl (hsim.admits hC d hk.durable) hres htask
          (isScheduled_mono hk.history hsched) (by rw [journal, turnJournal, hheld]; exact hpending) (hv.mono hk.history)
        have hgen : s'.generation = d.generation := hab.generation.trans hk.generation
        rw [← hgen] at hstep
        exact hstep
    · rename_i hclass
      obtain ⟨-, hdup, -⟩ := classify_cases hclass (.inl rfl)
      rcases hver : o.verifyAndAbsorbAttestation env a₁ s e with ⟨rv, a₂⟩
      obtain ⟨hsim₂, hok⟩ := verify_sim hsim.good hs hver
      rcases rv with err | ⟨s', e'⟩
      · exact hsim.trans hsim₂
      · obtain ⟨hsaves, hheld, hcached', hab, hv⟩ := hok s' e' rfl
        have hC' : ∀ d, a₂.durable = some d → C.admits d.history e := (hsim.trans hsim₂).admits hC
        rcases hsave : a₂.save (s'.addToInbox e') env.save with ⟨ok, a₃⟩
        obtain ⟨d₂, hk₂⟩ := hsim₂.good.cached s' hcached'
        have hsim₃ : Sim o C a₂ a₃ := by
          refine .of_save hsim₂.good hsave hk₂.durable (fun ht => (hk₂.current ht).1 ▸ prefix_refl _) ?_
          intro ht
          obtain ⟨hhist, hinbox⟩ := hk₂.current ht
          have hsaved : (s'.addToInbox e').saved = ⟨persistable (s'.inbox ++ [e']), d₂.history, d₂.generation⟩ := by
            rw [← hhist, ← hk₂.generation]; rfl
          rw [hsaved]
          refine .enqueue hk₂.durable hinbox (hC' d₂ hk₂.durable) ?_ ?_
          · rw [← hhist, hab.inbox, hab.history]; exact hdup
          · rw [← hhist, hab.history]; exact hv
        have hall := hsim.trans (hsim₂.trans hsim₃)
        dsimp only
        rw [hsave]
        cases ok with
        | false => exact hall
        | true =>
          dsimp only
          split <;> exact hall

/-- A delivery is admitted at most twice. -/
theorem deliver_sim (env : Env) (hg : a.Good o) (hC : ∀ d, a.durable = some d → C.admits d.history e) (d : Delivery) :
    Sim o C a (o.deliver env a e d).2 := by
  cases d with
  | method caller instanceID parentExecutionID canFold =>
    -- a policy may have the state loaded first
    have hpolicy : ∀ r a₁, (if env.policies.isSome && caller ≠ o.appID then o.loadInternalState env a
        else (.ok a.cached, a)) = (r, a₁) → Sim o C a a₁ := by
      intro r a₁ h
      split at h
      · exact (load_sim hg h).1
      · cases h
        exact .refl hg
    dsimp only [Orchestrator.deliver]
    split
    · rename_i h
      exact hpolicy _ _ h
    · rename_i s a₁ h
      have hsim := hpolicy _ _ h
      split
      · exact hsim
      · exact hsim.trans (admitEvent_sim env hsim.good (hsim.admits hC) _ _)
  | reminder sourceAppID parentExecutionID =>
    dsimp only [Orchestrator.deliver]
    split
    · exact .refl hg
    · have hsim := admitEvent_sim env hg hC ⟨"", parentExecutionID, sourceAppID⟩ false
      split
      · rename_i context a₁ h
        rw [h] at hsim
        have hinv : Sim o C a a₁.invalidateCachedState := hsim.trans (.quiet hsim.good.invalidate rfl rfl)
        have hsim₂ := hinv.trans (admitEvent_sim env hinv.good (hinv.admits hC)
          ⟨"", parentExecutionID, sourceAppID⟩ false)
        split
        · exact hinv
        · split
          · rename_i h₂; rw [h₂] at hsim₂; exact hsim₂
          · rename_i h₂; rw [h₂] at hsim₂; exact hsim₂
          · exact hsim₂
      · rename_i h; rw [h] at hsim; exact hsim
      · exact hsim

/-! ## Before the engine runs -/

/-- A function that leaves the state it returns in the cache, and else does what the journal can do. -/
structure Loads (o : Orchestrator) (C : Conditions) (a : Actor B) (r : Option (State B) × Actor B) : Prop where
  sim : Sim o C a r.2
  cached : ∀ s, r.1 = some s → r.2.cached = some s

theorem Loads.ends (h : Sim o C a a') : Loads o C a (none, a') :=
  ⟨h, fun s hs => by cases hs⟩

theorem reload_loads (hg : a.Good o) : Loads o C a (o.reload env a) := by
  have hinv : Sim o C a a.invalidateCachedState := .quiet hg.invalidate rfl rfl
  unfold Orchestrator.reload
  split
  · rename_i h
    exact .ends (hinv.trans (load_sim hinv.good h).1)
  · rename_i h
    obtain ⟨hsim, hc⟩ := load_sim hinv.good h
    exact ⟨hinv.trans hsim, fun s hs => hc s (congrArg Except.ok hs)⟩

/-- A reminder puts only timers and terminations into the cached inbox. -/
theorem inject_knows {env : TurnEnv} (hk : Knows a s d) (h : o.injectReminderEvent env s = some s') : Knows a s' d := by
  unfold Orchestrator.injectReminderEvent at h
  split at h
  · exact Option.some.inj h ▸ hk
  · split at h
    · exact Option.some.inj h ▸ hk
    · cases h
    · split_ifs at h with _ htimer
      rw [← Option.some.inj h]
      rw [Bool.not_eq_true, Bool.not_eq_false'] at htimer
      exact hk.appendInbox (.inl htimer)
    · split_ifs at h with hterm
      rw [← Option.some.inj h]
      rw [Bool.not_eq_true, Bool.not_eq_false'] at hterm
      exact hk.appendInbox (.inr hterm)

theorem handleEmptyInbox_loads (fresh : Bool) (hg : a.Good o) (hs : a.cached = some s) :
    Loads o C a (o.handleEmptyInbox env fresh a s) := by
  unfold Orchestrator.handleEmptyInbox
  split
  · refine ⟨.refl hg, ?_⟩
    intro s' hs'
    cases hs'
    exact hs
  · have hreload := reload_loads (C := C) env hg
    dsimp only
    split_ifs
    · exact .ends (.refl hg)
    · exact .ends (.refl hg)
    · exact .ends (.refl hg)
    · split
      · rename_i h; rw [h] at hreload; exact .ends hreload.sim
      · rename_i h
        rw [h] at hreload
        split
        · exact .ends hreload.sim
        · exact hreload

/-- Failing an instance that cannot start is a step of the journal. -/
theorem failUnstartable_sim (hg : a.Good o) (hs : a.cached = some s)
    (hun : isUnstartableState s.history s.inbox = true) : Sim o C a (o.failUnstartableWorkflow env a s) := by
  obtain ⟨d, hk⟩ := hg.cached s hs
  simp only [isUnstartableState, decide_eq_true_eq] at hun
  obtain ⟨-, hempty, hnostart⟩ := hun
  have hnone : ∀ e ∈ d.inbox, e.getExecutionStarted = none := fun e he =>
    Option.isNone_iff_eq_none.1 (all_eq_true.1 hnostart e (mem_filter.1 (hk.inbox.subset he)).1)
  unfold Orchestrator.failUnstartableWorkflow
  dsimp only
  rcases hsave : a.save _ env.save with ⟨ok, a'⟩
  refine .of_save hg hsave hk.durable ?_ ?_
  · intro ht
    obtain ⟨hhist, -⟩ := hk.current ht
    rw [← hhist]
    exact (prefix_append _ _).trans (prefix_append _ _)
  · intro ht
    obtain ⟨hhist, -⟩ := hk.current ht
    have hstep : Journal.Step o C a.journal (a.journal.save ⟨[], d.history ++
        [executionStartedEvent ⟨"", none, o.actorID, none, none, none, none⟩ env.now,
          unstartableFailure s.inbox.length env.now],
        d.generation⟩) :=
      .unstartable hk.durable rfl rfl ⟨hhist ▸ hempty, hnone⟩ (by decide : (-1 : Int) < 0)
        (by decide : (-1 : Int) < 0)
    rw [← hhist, ← hk.generation, append_cons] at hstep
    exact hstep

/-- An instance without history has a start in its inbox. -/
def Startable (s : State B) : Prop := s.history = [] → ∃ e ∈ s.inbox, e.getExecutionStarted.isSome = true

theorem classifyStartability_loads (hg : a.Good o) (hs : a.cached = some s) :
    Loads o C a (o.classifyStartability env a s) ∧
      ∀ s', (o.classifyStartability env a s).1 = some s' → Startable s' := by
  unfold Orchestrator.classifyStartability
  dsimp only
  split
  · exact ⟨.ends (.quiet hg.invalidate rfl rfl), fun s' hs' => by cases hs'⟩
  · split
    · have hreload := reload_loads (C := C) env hg
      refine ⟨?_, ?_⟩
      · split
        · rename_i h; rw [h] at hreload; exact .ends hreload.sim
        · rename_i s₁ a₁ h
          rw [h] at hreload
          split
          · rename_i hun
            exact .ends (hreload.sim.trans (failUnstartable_sim env hreload.sim.good (hreload.cached s₁ rfl) hun))
          · exact .ends hreload.sim
      · intro s' hs'
        split at hs'
        · cases hs'
        · split at hs' <;> cases hs'
    · rename_i hstart
      refine ⟨⟨.refl hg, ?_⟩, ?_⟩
      · intro s' hs'
        cases hs'
        exact hs
      · intro s' hs' hnil
        cases hs'
        simp only [hnil, isEmpty_nil, Bool.and_true, Bool.not_eq_true, Bool.not_eq_false'] at hstart
        exact any_eq_true.1 hstart

/-- Before the engine runs, a turn does what the journal can do. The state it runs on is
cached. -/
theorem prepareTurn_loads (hg : a.Good o) :
    Loads o C a (o.prepareTurn env a) ∧ ∀ s, (o.prepareTurn env a).1 = some s → Startable s := by
  have hnone : ∀ (a' : Actor B) (s : State B), ((none : Option (State B)), a').1 = some s → Startable s :=
    fun a' s hs => by cases hs
  unfold Orchestrator.prepareTurn
  rcases hload : o.loadInternalState env.toEnv a with ⟨r, a₁⟩
  obtain ⟨hsim, hcached⟩ := load_sim hg hload
  rcases r with err | _ | s
  · exact ⟨.ends hsim, hnone a₁⟩
  · exact ⟨.ends hsim, hnone a₁⟩
  · obtain ⟨d, hk⟩ := hsim.good.cached s (hcached s rfl)
    dsimp only
    cases hinj : o.injectReminderEvent env s with
    | none => exact ⟨.ends hsim, hnone a₁⟩
    | some s₁ =>
      have hsim₁ : Sim o C a { a₁ with cached := some s₁ } :=
        hsim.trans (.quiet (hsim.good.setCached (inject_knows hk hinj)) rfl rfl)
      have hempty := handleEmptyInbox_loads (C := C) env a.cached.isNone hsim₁.good rfl
      dsimp only
      rcases he : o.handleEmptyInbox env a.cached.isNone { a₁ with cached := some s₁ } s₁ with ⟨_ | s₂, a₂⟩
      · rw [he] at hempty
        exact ⟨.ends (hsim₁.trans hempty.sim), hnone a₂⟩
      · rw [he] at hempty
        obtain ⟨hl, hstart⟩ := classifyStartability_loads env hempty.sim.good (hempty.cached s₂ rfl)
        exact ⟨⟨hsim₁.trans (hempty.sim.trans hl.sim), hl.cached⟩, hstart⟩

/-! ## The saves of a turn -/

section StateFacts
variable (s : State B)

theorem saved_addAllToInbox (es : List HistoryEvent) :
    (s.addAllToInbox es).saved = ⟨persistable (s.inbox ++ es), s.history, s.generation⟩ ∧
      (s.addAllToInbox es).metadataETag = s.metadataETag := by
  induction es generalizing s with
  | nil => simp [State.addAllToInbox, State.saved, State.persistableInbox, persistable]
  | cons e es ih =>
    obtain ⟨hsaved, htag⟩ := ih (s.addToInbox e)
    exact ⟨hsaved.trans (by simp [State.addToInbox]), htag⟩

theorem saved_applyRuntimeStateChanges (rs : WorkflowRuntimeState) :
    (s.applyRuntimeStateChanges rs).saved =
        ⟨persistable s.inbox, (if rs.continuedAsNew then [] else s.history) ++ rs.newEvents, s.generation⟩ ∧
      (s.applyRuntimeStateChanges rs).metadataETag = s.metadataETag := by
  unfold State.applyRuntimeStateChanges
  cases rs.continuedAsNew <;> exact ⟨rfl, rfl⟩

end StateFacts

theorem pinsStart_pinExecutionID (id : String) : PinsStart (pinExecutionID id) := by
  intro e
  unfold pinExecutionID
  split
  · rename_i start heq
    exact .inr ⟨by simp [HistoryEvent.getExecutionStarted, heq], by simp [HistoryEvent.getExecutionStarted]⟩
  · exact .inl rfl

theorem eventId_pinExecutionID (id : String) (e : HistoryEvent) : (pinExecutionID id e).eventId = e.eventId := by
  unfold pinExecutionID
  split <;> rfl

section TurnSaves
variable {taken : List FoldEntry} {committed : Bool}

/-- A part of a turn. If it reports the completions taken as saved, the journal has them committed. -/
def TurnSim (o : Orchestrator) (C : Conditions) (taken : List FoldEntry) (committed : Bool) (a : Actor B)
    (r : Bool × Actor B) : Prop :=
  ∃ c, (r.1 = true → c = true) ∧ Advances o C taken committed c a r.2

theorem Advances.turnSim (h : Advances o C taken committed committed a a') : TurnSim o C taken committed a (false, a') :=
  ⟨committed, nofun, h⟩

theorem TurnSim.quiet (hg : a'.Good o) (hs : a'.saves = a.saves) (hh : a'.held = a.held) :
    TurnSim o C taken committed a (false, a') := (Advances.quiet hg hs hh).turnSim

/-- A save that commits the completions taken, if the store takes it. -/
theorem TurnSim.of_commit (hg : a.Good o) (hstep : s.metadataETag = some a.etag →
      Journal.Step o C (a.turnJournal taken committed) ((a.turnJournal taken committed).commit s.saved)) :
    TurnSim o C taken committed a (a.save s outcome) := by
  obtain ⟨c, hc, -, h⟩ := Advances.of_save hg (Eq.refl (a.save s outcome)) hstep
  exact ⟨c, hc, h⟩

/-- The events a stall adds are stalls. -/
theorem stallWorkflow_sim (hg : a.Good o) {env : TurnEnv} {rs : WorkflowRuntimeState} {description : String}
    (hstep : ∀ events, (∀ e ∈ events, (stalledDescription e).isSome = true) → (∀ e ∈ events, e.eventId < 0) →
      s.metadataETag = some a.etag →
      Journal.Step o C (a.turnJournal taken committed) ((a.turnJournal taken committed).save
        ⟨persistable s.inbox, (if rs.continuedAsNew then [] else s.history) ++ events, s.generation⟩)) :
    Advances o C taken committed committed a (Orchestrator.stallWorkflow env outcome a s rs description) := by
  unfold Orchestrator.stallWorkflow
  dsimp only
  generalize (if rs.continuedAsNew = true then ([] : List HistoryEvent) else s.history) = oldEvents
  split
  · exact ⟨hg.invalidate, .refl⟩
  · generalize hev : (if oldEvents.getLast?.bind stalledDescription = some description then ([] : List HistoryEvent)
      else [executionStalledEvent description env.now]) = events
    have hstalls : ∀ e ∈ events, e = executionStalledEvent description env.now := by
      intro e he
      rw [← hev] at he
      split at he
      · simp at he
      · exact mem_singleton.1 he
    have hdesc : ∀ e ∈ events, (stalledDescription e).isSome = true := fun e he => by
      rw [hstalls e he]
      rfl
    have hneg : ∀ e ∈ events, e.eventId < 0 := fun e he => by
      rw [hstalls e he]
      exact (by decide : (-1 : Int) < 0)
    obtain ⟨hsaved, htag⟩ := saved_applyRuntimeStateChanges s { rs with newEvents := events }
    have hmoves : Advances o C taken committed committed a
        (a.save (s.applyRuntimeStateChanges { rs with newEvents := events }) outcome).2 :=
      .keep hg fun ht => hsaved ▸ hstep events hdesc hneg (htag ▸ ht)
    exact ⟨hmoves.good.invalidate, hmoves.run⟩

/-- A turn on a cached state, under the conditions of the run. -/
structure Runs (o : Orchestrator) (C : Conditions) (a : Actor B) (s : State B) (d : Saved) (taken : List FoldEntry)
    (env : TurnEnv) : Prop where
  good : a.Good o
  knows : Knows a s d
  startable : Startable s
  current : ∀ p ∈ taken, p.gen = s.generation
  cond : C.turn s.history s.inbox taken env

variable {env : TurnEnv}

theorem Runs.turn (h : Runs o C a s d taken env) (ht : s.metadataETag = some a.etag) :
    (a.turnJournal taken committed).Turn C d s.inbox env := by
  obtain ⟨hhist, hinbox⟩ := h.knows.current ht
  exact ⟨h.knows.durable, hinbox, h.knows.generation ▸ h.current, hhist ▸ h.cond⟩

/-- The payload guard moves the completions to the inbox, and stalls. -/
theorem guardPayloadSize_sim (h : Runs o C a s d taken env) {description : String}
    (hsize : env.oversize = some description) :
    TurnSim o C taken committed a (Orchestrator.guardPayloadSize env a s taken description) := by
  unfold Orchestrator.guardPayloadSize
  dsimp only
  split
  · refine (stallWorkflow_sim h.good ?_).turnSim
    intro events hev hneg ht
    obtain ⟨hhist, hinbox⟩ := h.knows.current ht
    have hstep := Journal.Step.stall (o := o) (C := C) (j := a.turnJournal taken committed) h.knows.durable hinbox hev
      hneg
    rw [← hhist, ← h.knows.generation] at hstep
    exact hstep
  · obtain ⟨hsaved, htag⟩ := saved_addAllToInbox s (taken.map FoldEntry.event)
    generalize s.addAllToInbox (taken.map FoldEntry.event) = s₁ at hsaved htag ⊢
    have hmove : s₁.metadataETag = some a.etag → Journal.Step o C (a.turnJournal taken committed)
        ((a.turnJournal taken committed).commit s₁.saved) := by
      intro ht
      have ht' : s.metadataETag = some a.etag := htag ▸ ht
      rw [hsaved, (h.knows.current ht').1, h.knows.generation]
      exact .move (h.turn ht') (by rw [hsize]; rfl)
    rcases hsave : a.save s₁ env.save with ⟨ok, a'⟩
    obtain ⟨c, hc, -, hrun⟩ := Advances.of_save h.good hsave hmove
    cases ok with
    | false => exact ⟨c, nofun, hrun⟩
    | true =>
      dsimp only
      split
      · exact ⟨c, nofun, hrun⟩
      · -- the state just saved is the durable one
        obtain ⟨hg', -, ⟨-, habs⟩ | ⟨-, hwrite⟩⟩ := h.good.save hsave
        · cases habs
        · have hdur : a'.durable = some s₁.saved := congrArg List.head? hwrite
          have hsame : CachedInbox s₁.inbox s₁.saved.inbox := ⟨[], (append_nil _).symm, by simp⟩
          have hstall : Advances o C taken c c a' (Orchestrator.stallWorkflow env env.stallSave a'
              (s₁.resetChangeTracking.setMetadataETag (some a'.etag)) ⟨false, [], s.customStatus⟩ description) :=
            stallWorkflow_sim hg' fun events hev hneg _ =>
              Journal.Step.stall (j := a'.turnJournal taken c) hdur hsame hev hneg
          exact ⟨c, hc, hstall.good, hrun.run.trans hstall.run⟩

/-- An abandoned execution that continued as new leaves a pending start. -/
theorem saveContinuedAsNew_sim (h : Runs o C a s d taken env) {rs : EngineState} (hrs : env.engine = .abandoned rs)
    (hnew : rs.continuedAsNew = true) :
    TurnSim o C taken committed a (Orchestrator.saveContinuedAsNew env a s rs) := by
  unfold Orchestrator.saveContinuedAsNew
  dsimp only
  split
  · exact .quiet h.good.invalidate rfl rfl
  · rename_i start hstart
    refine .of_commit h.good ?_
    obtain ⟨happlied, htag⟩ := saved_applyRuntimeStateChanges s { rs.toWorkflowRuntimeState with newEvents := [] }
    generalize s.applyRuntimeStateChanges { rs.toWorkflowRuntimeState with newEvents := [] } = s₁ at happlied htag ⊢
    obtain ⟨hadded, htag'⟩ := saved_addAllToInbox (s₁.clearInbox.addToInbox start) (rs.newEvents.filter isEventRaised)
    generalize (s₁.clearInbox.addToInbox start).addAllToInbox (rs.newEvents.filter isEventRaised) = s₂ at hadded htag' ⊢
    intro ht
    have ht' : s.metadataETag = some a.etag := htag ▸ htag' ▸ ht
    have hin : ∀ e ∈ start :: rs.newEvents.filter isEventRaised,
        e.getExecutionStarted.isSome = true ∨ isEventRaised e = true := by
      intro e he
      rcases mem_cons.1 he with rfl | he
      · left
        rcases Option.or_eq_some_iff.1 hstart with hl | ⟨-, hr⟩
        · simpa using (mem_filter.1 (mem_of_getLast? hl)).2
        · obtain ⟨start, -, rfl⟩ := Option.map_eq_some_iff.1 hr
          rfl
      · exact .inr (mem_filter.1 he).2
    have hstep := Journal.Step.abandon (o := o) (j := a.turnJournal taken committed) h.knows.durable hin
      (h.turn ht') hrs hnew
    have hsaved : State.saved { s₂ with generation := s₂.generation + 1 } =
        ⟨persistable (start :: rs.newEvents.filter isEventRaised), [], d.generation + 1⟩ := by
      have hhist : s₁.history = [] := (congrArg Saved.history happlied).trans (by simp [hnew])
      have hgen : s₁.generation = d.generation := (congrArg Saved.generation happlied).trans h.knows.generation
      rw [Saved.mk.injEq]
      refine ⟨congrArg Saved.inbox hadded, (congrArg Saved.history hadded).trans hhist, congrArg (· + 1) ?_⟩
      exact (congrArg Saved.generation hadded).trans hgen
    rw [hsaved]
    exact hstep

/-! ## After the engine ran -/

/-- The state a finished turn saves: a new generation counts up. -/
theorem finish_state (hk : Knows a s d) (continuedAsNew : Bool)
    (hs' : (if continuedAsNew then { s with generation := s.generation + 1 } else s) = s') :
    s'.history = s.history ∧ s'.inbox = s.inbox ∧ s'.metadataETag = s.metadataETag ∧
      s'.generation = if continuedAsNew then d.generation + 1 else d.generation := by
  cases continuedAsNew with
  | false =>
    subst hs'
    exact ⟨rfl, rfl, rfl, hk.generation⟩
  | true =>
    subst hs'
    exact ⟨rfl, rfl, rfl, congrArg (· + 1) hk.generation⟩

/-- The events it saves: those of a new generation have their start pinned. -/
theorem finish_events (s' : State B) (rs : WorkflowRuntimeState) {final : WorkflowRuntimeState}
    (hf : (if rs.continuedAsNew then o.pinGenerationExecutionID s' rs else rs) = final) :
    final.continuedAsNew = rs.continuedAsNew ∧
      ∃ f, PinsStart f ∧ KeepsEvents rs.continuedAsNew f ∧ final.newEvents = rs.newEvents.map f := by
  cases hnew : rs.continuedAsNew with
  | false =>
    rw [hnew] at hf
    subst hf
    exact ⟨hnew, id, fun _ => .inl rfl, ⟨fun _ => rfl, fun _ => rfl⟩, by simp⟩
  | true =>
    rw [hnew] at hf
    subst hf
    exact ⟨hnew, _, pinsStart_pinExecutionID _, ⟨eventId_pinExecutionID _, fun h => by cases h⟩, rfl⟩

/-- What a finished turn does to the saves: a stall, a partial dispatch, a commit, or nothing. -/
theorem finishTurn_sim (h : Runs o C a s d taken env) (hsize : env.oversize = none) {rs : EngineState}
    (hrs : env.engine = .finished rs) : TurnSim o C taken committed a (o.finishTurn env a s rs) := by
  -- a stall, before or after the generation is counted up
  have hstall : ∀ (s' : State B) (rs' : WorkflowRuntimeState) (outcome : SaveOutcome) (description : String),
      s'.history = s.history → s'.inbox = s.inbox → s'.metadataETag = s.metadataETag →
      rs'.continuedAsNew = rs.continuedAsNew →
      (rs.continuedAsNew = false → s'.generation = d.generation) →
      (rs.continuedAsNew = true → rs.stalled.isSome = true ∧ s'.generation = d.generation ∨
        rs.stalled = none ∧ (∃ description, env.dispatch = .payloadSizeExceeded description) ∧
          s'.generation = d.generation + 1) →
      TurnSim o C taken committed a (false, Orchestrator.stallWorkflow env outcome a s' rs' description) := by
    intro s' rs' outcome description hh hi ht hnew hsame hgen
    refine (stallWorkflow_sim h.good ?_).turnSim
    intro events hev hneg htag
    rw [ht] at htag
    obtain ⟨hhist, hinbox⟩ := h.knows.current htag
    rw [hh, hi, hnew]
    cases hcan : rs.continuedAsNew with
    | false =>
      have hstep := Journal.Step.stall (o := o) (C := C) (j := a.turnJournal taken committed) h.knows.durable hinbox hev
        hneg
      rw [← hhist, ← hsame hcan] at hstep
      exact hstep
    | true => exact .stallNew (h.turn htag) hsize hrs hcan hev (hgen hcan) hneg
  unfold Orchestrator.finishTurn
  cases hst : rs.stalled with
  | some description =>
    exact hstall s _ _ _ rfl rfl rfl rfl (fun _ => h.knows.generation) fun _ =>
      .inl ⟨by rw [hst]; rfl, h.knows.generation⟩
  | none =>
    rcases hstrip : stripUnmatchedResolutions s.history rs.newEvents (!rs.completed && !rs.continuedAsNew) with
      ⟨filtered, early⟩
    dsimp only
    split
    · exact .quiet h.good.invalidate rfl rfl
    · generalize hs' : (if rs.continuedAsNew = true then { s with generation := s.generation + 1 } else s) = s'
      generalize hfinal : (if rs.continuedAsNew = true then o.pinGenerationExecutionID s'
        { rs.toWorkflowRuntimeState with newEvents := filtered } else
        { rs.toWorkflowRuntimeState with newEvents := filtered }) = final
      obtain ⟨hh, hi, htag, hgen⟩ := finish_state h.knows rs.continuedAsNew hs'
      obtain ⟨hnew, f, hf, hkeeps, hev⟩ := finish_events s' { rs.toWorkflowRuntimeState with newEvents := filtered } hfinal
      split
      · exact .quiet h.good.invalidate rfl rfl
      · split
        · rename_i description hdisp
          refine hstall s' final _ _ hh hi htag hnew ?_ ?_
          · intro hcan
            rw [hgen, hcan]; rfl
          · intro hcan
            exact .inr ⟨hst, ⟨description, hdisp⟩, by rw [hgen, hcan]; rfl⟩
        · split
          · rename_i failedEventIDs remote hdisp hfirst
            simp only [Bool.and_eq_true, List.isEmpty_iff] at hfirst
            have hempty : s.history = [] := hh ▸ hfirst.1
            unfold Orchestrator.savePartialDispatch
            rw [hev]
            generalize hw : (fun e => !(isDispatchableEvent e && failedEventIDs.contains e.eventId)) = withheld
            obtain ⟨hsaved, hrt⟩ := saved_applyRuntimeStateChanges s'
              { final with newEvents := (filtered.map f).filter withheld }
            refine (Advances.keep h.good ?_).turnSim
            intro ht
            have ht' : s.metadataETag = some a.etag := htag ▸ hrt ▸ ht
            obtain ⟨hhist, hinbox⟩ := h.knows.current ht'
            rw [hsaved, hh, hi, hempty, hgen, ite_self]
            exact .partialDispatch (h.turn ht') hsize hrs hst (hhist ▸ hempty) (h.startable hempty)
              (hhist ▸ hstrip) hf rfl hkeeps hdisp hw.symm
          · exact .quiet h.good.invalidate rfl rfl
        · split
          · exact .quiet h.good.invalidate rfl rfl
          · obtain ⟨happlied, hrt⟩ := saved_applyRuntimeStateChanges s' final
            obtain ⟨hsaved, hct⟩ := saved_addAllToInbox (s'.applyRuntimeStateChanges final).clearInbox early
            refine .of_commit h.good ?_
            intro ht
            have ht' : s.metadataETag = some a.etag := htag ▸ hrt ▸ hct ▸ ht
            obtain ⟨hhist, hinbox⟩ := h.knows.current ht'
            have hhistory : (s'.applyRuntimeStateChanges final).history =
                (if rs.continuedAsNew then [] else d.history) ++ filtered.map f := by
              rw [← hnew, ← hev, ← hhist, ← hh]
              exact congrArg Saved.history happlied
            have hgeneration := (congrArg Saved.generation happlied).trans hgen
            have hturn : (a.turnJournal taken committed).Turn C d s.inbox env := h.turn ht'
            have hstep := Journal.Step.commit (o := o) hturn hsize hrs hst (hhist ▸ hstrip) hf hkeeps
            rw [← hhistory, ← hgeneration] at hstep
            rw [hsaved]
            exact hstep

/-- Running the engine, and what follows, is a run of the journal. -/
theorem execute_sim (h : Runs o C a s d taken env) : TurnSim o C taken committed a (o.execute env a s taken) := by
  unfold Orchestrator.execute
  split
  · rename_i hsize
    exact guardPayloadSize_sim h hsize
  · rename_i hsize
    split
    · exact .quiet h.good rfl rfl
    · exact .quiet h.good.invalidate rfl rfl
    · rename_i rs hrs
      split
      · rename_i hnew
        exact saveContinuedAsNew_sim h hrs hnew
      · exact .quiet h.good.invalidate rfl rfl
    · rename_i rs hrs
      exact finishTurn_sim h hsize hrs

end TurnSaves

/-! ## Whole runs -/

/-- What the conditions ask of an input: of a delivered event, that it is allowed next to the
saved history; of a turn, that it is allowed on the state it runs on. -/
def Input.Meets (o : Orchestrator) (C : Conditions) (a : Actor B) : Input → Prop
  | .deliver _ _ e => ∀ d, a.durable = some d → C.admits d.history e
  | .turn env => ∀ s a', o.prepareTurn env a = (some s, a') →
      C.turn s.history s.inbox (a'.held.foldTake s.generation).1 env
  | .invalidate => True
  | .deactivate => True

/-- A turn takes completions, does its work, and settles what it took. -/
theorem runWorkflow_sim {env : TurnEnv} (hg : a.Good o) (hC : Input.Meets o C a (.turn env)) :
    Relation.ReflTransGen (Journal.Step o C) a.journal (o.runWorkflow env a).journal ∧ (o.runWorkflow env a).Good o := by
  obtain ⟨hload, hstart⟩ := prepareTurn_loads env hg
  unfold Orchestrator.runWorkflow
  rcases hprep : o.prepareTurn env a with ⟨_ | s, a₁⟩
  · rw [hprep] at hload
    exact ⟨hload.sim.run, hload.sim.good⟩
  · rw [hprep] at hload hstart
    obtain ⟨d, hk⟩ := hload.sim.good.cached s (hload.cached s rfl)
    rcases htake : a₁.held.foldTake s.generation with ⟨folded, held⟩
    have hcond := hC s a₁ hprep
    rw [htake] at hcond
    have hcurrent : ∀ p ∈ folded, p.gen = s.generation := fun p hp =>
      Held.gen_of_mem_foldTake (by rw [htake]; exact hp)
    have hruns : Runs o C { a₁ with held := held } s d folded env :=
      ⟨hload.sim.good.setHeld held, hk.of_saves rfl, hstart s rfl, hcurrent, hcond⟩
    have hsim : TurnSim o C folded false _ _ := execute_sim hruns
    -- the step in which the turn takes its completions
    have htaken : Journal.Step o C a₁.journal (({ a₁ with held := held } : Actor B).turnJournal folded false) := by
      have hstep := Journal.Step.take (o := o) (C := C) (j := a₁.journal) hk.durable rfl
      rw [← hk.generation] at hstep
      have hheld : a₁.journal.held.foldTake s.generation = (folded, held) := htake
      rw [hheld] at hstep
      exact hstep
    have hbefore := hload.sim.run.tail htaken
    dsimp only
    rw [htake]
    rcases hexec : o.execute env { a₁ with held := held } s folded with ⟨ok, a₂⟩
    rw [hexec] at hsim
    obtain ⟨c, hc, hgood, hrun⟩ := hsim
    refine ⟨?_, hgood.setHeld _⟩
    cases ok with
    | false => exact (hbefore.trans hrun).tail (.nack)
    | true => exact (hbefore.trans hrun).tail (.ack (hc rfl))

theorem step_sim (hg : a.Good o) {i : Input} (hC : i.Meets o C a) :
    Relation.ReflTransGen (Journal.Step o C) a.journal (o.step a i).journal ∧ (o.step a i).Good o := by
  cases i with
  | deliver env d e =>
    have hsim := deliver_sim env hg hC d
    exact ⟨hsim.run, hsim.good⟩
  | turn env => exact runWorkflow_sim hg hC
  | invalidate => exact ⟨.refl, hg.invalidate⟩
  | deactivate =>
    exact ⟨.single (.flush rfl), (fun s hs => by cases hs), hg.noTimers,
      by simp [CertVerifyCache.Sound, Orchestrator.step, Actor.deactivate]⟩

/-- One actor leads to another by inputs that meet the conditions. -/
def Actor.LeadsTo (o : Orchestrator) (C : Conditions) : Actor B → Actor B → Prop :=
  Relation.ReflTransGen (Lib.Runs.Steps (fun a i => Input.Meets o C a i) fun a i => some (o.step a i))

theorem Actor.LeadsTo.journal (h : a.LeadsTo o C a') (hg : a.Good o) :
    Relation.ReflTransGen (Journal.Step o C) a.journal a'.journal ∧ a'.Good o := by
  induction h with
  | refl => exact ⟨.refl, hg⟩
  | tail _ hstep ih =>
    obtain ⟨i, hC, hi⟩ := hstep
    cases hi
    obtain ⟨hrun, hg'⟩ := step_sim ih.2 hC
    exact ⟨ih.1.trans hrun, hg'⟩

/-- An actor whose instance was created and not run yet. -/
structure Actor.Created (a : Actor B) : Prop where
  cached : a.cached = none
  held : a.held = .empty
  certs : a.certVerifyCache = []
  saves : ∃ start generation, a.saves = [⟨[start], [], generation⟩] ∧ start.getExecutionStarted.isSome = true

/-- The states an actor reaches when every input meets the conditions. -/
def Actor.Reached (o : Orchestrator) (C : Conditions) : Actor B → Prop :=
  Lib.Runs.Reachable Actor.Created (Lib.Runs.Steps (fun a i => Input.Meets o C a i) fun a i => some (o.step a i))

theorem Actor.Reached.next (h : a.Reached o C) (i : Input) (hi : i.Meets o C a) : (o.step a i).Reached o C :=
  .step h ⟨i, hi, rfl⟩

/-- A turn meets the conditions if they allow it on the state it prepares. -/
theorem Actor.Reached.turn (h : a.Reached o C) (env : TurnEnv) (hC : ∀ s ∈ (o.prepareTurn env a).1,
      C.turn s.history s.inbox ((o.prepareTurn env a).2.held.foldTake s.generation).1 env) :
    (o.step a (.turn env)).Reached o C := by
  refine h.next _ ?_
  intro s a' hprep
  rw [hprep] at hC
  exact hC s rfl

/-- The runs of an actor show in its journal as runs. -/
theorem Actor.Reached.journal (h : a.Reached o C) : a.journal.Reached o C ∧ a.Good o := by
  refine Lib.Runs.Reachable.simulated Actor.journal (Actor.Good o) ?_ ?_ h
  · rintro a ⟨hc, hh, hcerts, start, generation, hs, hstart⟩
    refine ⟨⟨⟨start, generation, hs, hstart⟩, hh, rfl, rfl⟩, ?_, ?_, by simp [hcerts, CertVerifyCache.Sound]⟩
    · intro s hs'
      cases hc.symm.trans hs'
    · intro d hd
      rw [hs, mem_singleton] at hd
      subst hd
      simp [persistable, HistoryEvent.isTimerFired_of_start hstart]
  · rintro a a' hg ⟨i, hC, hstep⟩
    cases hstep
    exact step_sim hg hC

end Dapr.Workflow
