import Dapr.JobPool.Meters
import Dapr.Lib.Runs
/-!
# Every trigger is answered once

A trigger that was given to the connections loop is in one place at a time: in the queue of a gate,
on a stream, or answered. Draining a queue keeps the order of what stays in it, and once the loop
has shut down everything has been answered.
-/

namespace Dapr.JobPool

open Lib.Totals Lib.Runs List

/-- Where a trigger is. -/
inductive Place where
  | pending (key : String)
  | onStream (i : Nat)
  | answered (result : Result)
  deriving DecidableEq, Repr

def Stream.sents (st : Stream) : List Sent := st.queue ++ st.inflight.entries.map (·.2)

namespace Connections

/-- The places where a trigger is. -/
def placesOf (c : Connections) (id : Nat) : List Place :=
  c.gates.entries.flatMap (fun e => (e.2.pending.filter (·.id = id)).map fun _ => .pending e.1) ++
    c.streams.table.entries.flatMap (fun e => (e.2.sents.filter (·.req.id = id)).map fun _ => .onStream e.1) ++
    (c.answered.filter (·.1 = id)).map fun a => .answered a.2

end Connections

/-- Counts a trigger on the streams and in the answers. -/
def answersOf (id : Nat) : Meter where
  weigh x := if x.req.id = id then 1 else 0
  ledger answered _ := answered.countP (·.1 = id)
  ledger_resultFn answered releases x result := by simp [countP_append, countP_singleton]

/-- How often a trigger waits at the gates. -/
def waitingOf (gates : Gates) (id : Nat) : Nat := total (fun _ g => g.pending.countP (·.id = id)) gates

namespace Connections

/-- In how many places a trigger is. -/
def places (c : Connections) (id : Nat) : Nat := waitingOf c.gates id + (answersOf id).reading c

theorem length_placesOf (c : Connections) (id : Nat) : (c.placesOf id).length = c.places id := by
  have hgates : (c.gates.entries.flatMap fun e => (e.2.pending.filter (·.id = id)).map fun _ => Place.pending e.1).length =
      waitingOf c.gates id := by
    simp only [waitingOf, total, length_flatMap, length_map, ← countP_eq_length_filter]
  have hstream : ∀ st : Stream, (st.sents.filter (·.req.id = id)).length = st.weigh (answersOf id).weigh := by
    intro st
    have hsum : ∀ xs : List Sent, (xs.filter (·.req.id = id)).length = (xs.map (answersOf id).weigh).sum := by
      intro xs
      induction xs with
      | nil => rfl
      | cons x xs ih =>
        rw [map_cons, sum_cons, ← ih]
        by_cases hx : x.req.id = id
        · simp [answersOf, hx, Nat.add_comm]
        · simp [answersOf, hx]
    rw [Stream.sents, hsum, map_append, sum_append, map_map]
    rfl
  have hstreams : (c.streams.table.entries.flatMap fun e =>
      (e.2.sents.filter (·.req.id = id)).map fun _ => Place.onStream e.1).length = (answersOf id).onStreams c.streams := by
    simp only [Meter.onStreams, total, length_flatMap, length_map, hstream]
  rw [placesOf, length_append, length_append, hgates, hstreams, length_map,
    ← countP_eq_length_filter, places, Meter.reading, Nat.add_assoc]
  rfl

end Connections

/-! ## The gates' queues -/

/-- The same triggers wait at the same gates. -/
def SamePending (gates gates' : Gates) : Prop :=
  ∀ key, (gates'.lookup key).map (·.pending) = (gates.lookup key).map (·.pending)

section Pending
variable {gates gates' gates'' : Gates} {keys acquired : List String} {count idx : Nat}

theorem SamePending.trans (h : SamePending gates gates') (h' : SamePending gates' gates'') : SamePending gates gates'' :=
  fun key => (h' key).trans (h key)

theorem SamePending.waitingOf (h : SamePending gates gates') (id : Nat) : waitingOf gates' id = waitingOf gates id := by
  refine total_congr fun key => ?_
  have := congrArg (Option.map fun reqs : List TriggerRequest => reqs.countP (·.id = id)) (h key)
  simpa [Function.comp_def] using this

theorem waitingOf_insert {key : String} {g : ConcurrencyGate} (g' : ConcurrencyGate) (id : Nat)
    (h : gates.lookup key = some g) : JobPool.waitingOf (gates.insert key g') id + g.pending.countP (·.id = id) =
      JobPool.waitingOf gates id + g'.pending.countP (·.id = id) :=
  total_insert h

theorem waitingOf_insert_new {key : String} (g : ConcurrencyGate) (id : Nat) (h : gates.lookup key = none) :
    JobPool.waitingOf (gates.insert key g) id = JobPool.waitingOf gates id + g.pending.countP (·.id = id) := by
  exact total_insert_new h

theorem SamePending.mem (h : SamePending gates gates') {key : String} : key ∈ gates' ↔ key ∈ gates := by
  rw [← AList.lookup_isSome, ← AList.lookup_isSome]
  have := congrArg Option.isSome (h key)
  simpa using Iff.of_eq (congrArg (· = true) this)

theorem samePending_release (keys : List String) : SamePending gates (releaseGates gates keys) := by
  intro key
  rw [lookup_releaseGates, Option.map_map]
  rfl

theorem samePending_acquire {ok : Bool} (h : acquireGates count idx gates keys = (acquired, ok, gates')) :
    SamePending gates gates' := by
  intro key
  rw [(acquireGates_spec h).1 key, Option.map_map]
  rfl

end Pending

namespace Connections

variable {c c' : Connections} {pick : Nat → Nat} {req : TriggerRequest} {key : String} {id : Nat}

/-- A trigger counts for its number. -/
def mark (req : TriggerRequest) (id : Nat) : Nat := if req.id = id then 1 else 0

theorem reading_respond {result : Result} :
    (answersOf id).reading (c.respond req result) = (answersOf id).reading c + mark req id := by
  simp [Meter.reading, respond, answersOf, mark, Nat.add_assoc]

theorem reading_dispatchWithGates {i : Nat} {keys : GateKeys} {st : Stream} (h : c.streams.lookup i = some st) :
    (answersOf id).reading (c.dispatchWithGates i req keys) = (answersOf id).reading c + mark req id :=
  Meter.reading_streamEnqueue h

/-- What a handler leaves alone. -/
structure Frame (c c' : Connections) : Prop where
  given : c'.given = c.given
  phase : c'.phase = c.phase

theorem Frame.refl : Frame c c := ⟨rfl, rfl⟩

theorem Frame.trans {c'' : Connections} (h : Frame c c') (h' : Frame c' c'') : Frame c c'' :=
  ⟨h'.given.trans h.given, h'.phase.trans h.phase⟩

/-- An attempt to dispatch a trigger puts it on a stream, answers it or leaves it to the caller. -/
theorem tryDispatchPending_spec (id : Nat) {attempt : Attempt} (h : c.tryDispatchPending pick req = (attempt, c')) :
    SamePending c.gates c'.gates ∧ Frame c c' ∧
      (answersOf id).reading c' = (answersOf id).reading c + if attempt = .kept then 0 else mark req id := by
  unfold tryDispatchPending at h
  split at h
  · cases h
    exact ⟨fun _ => rfl, ⟨rfl, rfl⟩, reading_respond⟩
  · next i hi =>
    obtain ⟨st, hst, -, -⟩ := getStreamLoop_some hi
    dsimp only at h
    split at h
    · next gates hacq =>
      cases h
      exact ⟨samePending_acquire hacq, ⟨rfl, rfl⟩, reading_dispatchWithGates hst⟩
    · next acquired gates hacq =>
      cases h
      exact ⟨(samePending_acquire hacq).trans (samePending_release acquired), ⟨rfl, rfl⟩, rfl⟩

/-- A new trigger waits at its first gate, is put on a stream or is answered. -/
theorem handleTriggerRequest_spec (pick : Nat → Nat) (req : TriggerRequest) (id : Nat) :
    Frame c (c.handleTriggerRequest pick req) ∧
      (c.handleTriggerRequest pick req).places id = c.places id + mark req id ∧
      ∀ key, ∃ new, (c.handleTriggerRequest pick req).queueOf key = c.queueOf key ++ new ∧ ∀ r ∈ new, r = req := by
  have hsame : ∀ {gates : Gates}, SamePending c.gates gates → ∀ key,
      ((gates.lookup key).map (·.pending)).getD [] = c.queueOf key := fun h key => by rw [h key]; rfl
  unfold handleTriggerRequest
  split
  · refine ⟨⟨rfl, rfl⟩, ?_, fun key => ⟨[], by simp [queueOf, respond], by simp⟩⟩
    rw [places, reading_respond, places, Nat.add_assoc]
    rfl
  · next i hi =>
    obtain ⟨st, hst, -, -⟩ := getStreamLoop_some hi
    dsimp only
    split
    · refine ⟨⟨rfl, rfl⟩, ?_, fun key => ⟨[], by simp [queueOf, streamEnqueue], by simp⟩⟩
      rw [places, Meter.reading_streamEnqueue hst, places, Nat.add_assoc]
      rfl
    · next primary _ _ =>
      split
      · next gates hacq =>
        have hpending := samePending_acquire hacq
        refine ⟨⟨rfl, rfl⟩, ?_, fun key => ⟨[], ?_, by simp⟩⟩
        · rw [places, reading_dispatchWithGates (c := { c with gates := gates }) hst, ← Nat.add_assoc]
          exact congrArg (· + _ + _) (hpending.waitingOf id)
        · rw [append_nil]
          exact hsame hpending key
      · next acquired gates hacq =>
        have hpending := (samePending_acquire hacq).trans (samePending_release acquired)
        split
        · next gate hgate =>
          obtain ⟨g, hg, henqueue⟩ := Option.bind_eq_some_iff.1 hgate
          have hgate : gate = { g with pending := g.pending ++ [req] } := by
            unfold ConcurrencyGate.enqueue at henqueue
            split at henqueue
            · cases henqueue
            · exact (Option.some.inj henqueue).symm
          subst hgate
          refine ⟨⟨rfl, rfl⟩, ?_, fun key => ?_⟩
          · have hinsert := waitingOf_insert { g with pending := g.pending ++ [req] } id hg
            dsimp only at hinsert
            have hwaiting := hpending.waitingOf id
            have hmark : (g.pending ++ [req]).countP (·.id = id) = g.pending.countP (·.id = id) + mark req id := by
              simp [mark]
            change waitingOf (AList.insert primary _ _) id + (answersOf id).reading c =
              waitingOf c.gates id + (answersOf id).reading c + _
            omega
          · by_cases hkey : key = primary
            · subst hkey
              refine ⟨[req], ?_, by simp⟩
              have := hsame hpending key
              rw [hg] at this
              simp [queueOf] at this ⊢
              rw [this]
            · refine ⟨[], ?_, by simp⟩
              rw [append_nil, queueOf, AList.lookup_insert_ne hkey]
              exact hsame hpending key
        · refine ⟨⟨rfl, rfl⟩, ?_, fun key => ⟨[], ?_, by simp⟩⟩
          · rw [places, reading_respond, ← Nat.add_assoc]
            exact congrArg (· + _ + _) (hpending.waitingOf id)
          · rw [append_nil]
            exact hsame hpending key

/-! ## Draining -/

/-- Some triggers have left the queues; everything is still in as many places. -/
structure Drained (c c' : Connections) : Prop where
  frame : Frame c c'
  places : ∀ id, c'.places id = c.places id
  queue : ∀ key, (c'.queueOf key).Sublist (c.queueOf key)

theorem Drained.trans {c'' : Connections} (h : Drained c c') (h' : Drained c' c'') : Drained c c'' :=
  ⟨h.frame.trans h'.frame, fun id => (h'.places id).trans (h.places id), fun key => (h'.queue key).trans (h.queue key)⟩

theorem drained_foldl {α : Type} {f : Connections → α → Connections} (hf : ∀ c a, Drained c (f c a)) (l : List α) :
    Drained c (l.foldl f c) := by
  induction l generalizing c with
  | nil => exact ⟨.refl, fun _ => rfl, fun _ => .refl _⟩
  | cons a l ih => exact (hf c a).trans ih

/-- Changing the counters of the gates moves no trigger. -/
theorem drained_of_samePending {gates : Gates} (h : SamePending c.gates gates) : Drained c { c with gates := gates } := by
  refine ⟨⟨rfl, rfl⟩, fun id => ?_, fun key => ?_⟩
  · exact congrArg (· + _) (h.waitingOf id)
  · rw [queueOf, h key]
    exact .refl _

theorem requeueFront_spec (skipped : List TriggerRequest) (hkey : key ∈ c.gates) :
    (∀ id, (c.requeueFront key skipped).places id = c.places id + skipped.countP (·.id = id)) ∧
      (∀ k, k ≠ key → (c.requeueFront key skipped).queueOf k = c.queueOf k) ∧
      (c.requeueFront key skipped).queueOf key = skipped ++ c.queueOf key := by
  obtain ⟨g, hg⟩ := Option.isSome_iff_exists.1 (AList.lookup_isSome.2 hkey)
  refine ⟨?_, ?_, ?_⟩
  · intro id
    have hinsert := waitingOf_insert (g.requeueFront skipped) id hg
    rw [ConcurrencyGate.requeueFront, countP_append] at hinsert
    rw [requeueFront, Lib.Totals.modify, hg]
    change waitingOf (AList.insert key (g.requeueFront skipped) c.gates) id + (answersOf id).reading c =
      waitingOf c.gates id + (answersOf id).reading c + _
    rw [ConcurrencyGate.requeueFront]
    omega
  · intro k hk
    rw [queueOf, requeueFront, lookup_modify_ne hk]
    rfl
  · rw [queueOf, requeueFront, lookup_modify_self, queueOf, hg]
    rfl

theorem places_withQueue (id : Nat) {next : TriggerRequest} {g : ConcurrencyGate} {rest : List TriggerRequest}
    (hg : c.gates.lookup key = some g) (hrest : g.pending = next :: rest) :
    (c.withQueue key g rest).places id + mark next id = c.places id := by
  have hinsert := waitingOf_insert { g with pending := rest } id hg
  have hmark : g.pending.countP (·.id = id) = rest.countP (·.id = id) + mark next id := by
    simp [hrest, countP_cons, mark]
  dsimp only at hinsert
  change waitingOf (AList.insert key _ _) id + (answersOf id).reading c + _ =
    waitingOf c.gates id + (answersOf id).reading c
  omega

/-- A drain in progress, with what it has skipped so far. -/
structure Draining (c : Connections) (key : String) (skipped : List TriggerRequest) (c' : Connections) : Prop where
  frame : Frame c c'
  mem : key ∈ c'.gates
  places : ∀ id, c'.places id + skipped.countP (·.id = id) = c.places id
  others : ∀ k, k ≠ key → c'.queueOf k = c.queueOf k
  queue : (skipped ++ c'.queueOf key).Sublist (c.queueOf key)

/-- After an attempt with the next trigger, the rest of the queue waits. -/
theorem queueOf_attempt {rest : List TriggerRequest} {next : TriggerRequest} {g : ConcurrencyGate} {attempt : Attempt}
    (h : (c.withQueue key g rest).tryDispatchPending pick next = (attempt, c')) : c'.queueOf key = rest := by
  rw [queueOf, (tryDispatchPending_spec 0 h).1 key]
  simp [withQueue]

theorem Draining.attempt {c₁ c₂ : Connections} {skipped rest : List TriggerRequest} {next : TriggerRequest}
    {g : ConcurrencyGate} {attempt : Attempt} (h : Draining c key skipped c₁) (hg : c₁.gates.lookup key = some g)
    (hrest : g.pending = next :: rest) (hc₂ : (c₁.withQueue key g rest).tryDispatchPending pick next = (attempt, c₂)) :
    Draining c key (if attempt = .kept then skipped ++ [next] else skipped) c₂ := by
  obtain ⟨hsame, hframe, -⟩ := tryDispatchPending_spec 0 hc₂
  have hqueue : c₁.queueOf key = next :: rest := by simp [queueOf, hg, hrest]
  refine ⟨⟨hframe.given.trans h.frame.given, hframe.phase.trans h.frame.phase⟩, ?_, ?_, ?_, ?_⟩
  · exact hsame.mem.2 (by simp [withQueue])
  · intro id
    have hold := h.places id
    have htaken := places_withQueue id hg hrest
    have hattempt : c₂.places id =
        (c₁.withQueue key g rest).places id + if attempt = .kept then 0 else mark next id := by
      rw [Connections.places, (tryDispatchPending_spec id hc₂).2.2, hsame.waitingOf id, Connections.places,
        Nat.add_assoc]
    split at hattempt
    · next hkept =>
      rw [if_pos hkept, countP_append, countP_singleton]
      simp only [mark] at htaken
      simp only [decide_eq_true_eq]
      omega
    · next hkept =>
      rw [if_neg hkept]
      omega
  · intro k hk
    rw [← h.others k hk, queueOf, hsame k, withQueue, AList.lookup_insert_ne hk]
    rfl
  · rw [queueOf_attempt hc₂]
    have hsub := hqueue ▸ h.queue
    split
    · simpa using hsub
    · exact (Sublist.append_left (sublist_cons_self next rest) skipped).trans hsub

theorem drainPending_of_notMem (h : key ∉ c.gates) : c.drainPending pick key = c := by
  have hnone : c.gates.lookup key = none := AList.lookup_eq_none.2 h
  rw [drainPending]
  simp [drainLoop, requeueFront, Lib.Totals.modify, hnone]

theorem drained_drainPending : Drained c (c.drainPending pick key) := by
  by_cases hkey : key ∈ c.gates
  · have hstart : Draining c key [] c := ⟨.refl, hkey, fun _ => rfl, fun _ _ => rfl, .refl _⟩
    obtain ⟨skipped, c', heq, hend⟩ := drainLoop_rule pick key (P := fun _ => Draining c key) (D := Draining c key)
      (fun n skipped c₁ next g rest attempt c₂ h hg hrest hc₂ => by
        have := h.attempt hg hrest hc₂
        cases attempt <;> exact this)
      (((c.gates.lookup key).map (·.pending.length)).getD 0) [] hstart
    have hdrained : Draining c key skipped c' := hend.elim id fun ⟨_, h, _⟩ => h
    obtain ⟨hplaces, hothers, hqueue⟩ := requeueFront_spec skipped hdrained.mem
    rw [drainPending, heq]
    refine ⟨⟨hdrained.frame.given, hdrained.frame.phase⟩, ?_, ?_⟩
    · intro id
      rw [hplaces id, hdrained.places id]
    · intro k
      by_cases hk : k = key
      · subst hk
        exact hqueue ▸ hdrained.queue
      · rw [hothers k hk, hdrained.others k hk]
  · rw [drainPending_of_notMem hkey]
    exact ⟨.refl, fun _ => rfl, fun _ => .refl _⟩

theorem drained_handleConcurrencyRelease {keys : List String} : Drained c (c.handleConcurrencyRelease pick keys) :=
  (drained_of_samePending (samePending_release keys)).trans (drained_foldl (fun _ _ => drained_drainPending) _)

theorem drained_handleSchedulerInfoUpdate {count idx : Nat} {order : List String} :
    Drained c (c.handleSchedulerInfoUpdate pick count idx order) := by
  have hinfo : Drained c { c with schedulerCount := max count 1, schedulerIdx := idx } :=
    ⟨⟨rfl, rfl⟩, fun _ => rfl, fun _ => .refl _⟩
  exact hinfo.trans (drained_foldl (fun _ _ => drained_drainPending) _)

/-! ## Connecting, closing and shutting down -/

/-- How often a trigger waits at some of the gates. -/
theorem countP_undeliver (es : List (Σ _ : String, ConcurrencyGate)) :
    (es.flatMap fun e => e.2.pending.map fun req => (req.id, Result.undeliverable)).countP (·.1 = id) =
      (es.map fun e => e.2.pending.countP (·.id = id)).sum := by
  simp only [countP_flatMap, countP_map, Function.comp_def]

theorem reading_undeliver (id : Nat) (es : List (Σ _ : String, ConcurrencyGate)) : (answersOf id).reading (c.undeliver es) =
    (answersOf id).reading c + (es.map fun e => e.2.pending.countP (·.id = id)).sum := by
  rw [← countP_undeliver]
  simp only [Meter.reading, undeliver, answersOf, countP_append]
  omega

theorem drained_removeOrphanedGates : Drained c c.removeOrphanedGates := by
  refine ⟨⟨rfl, rfl⟩, ?_, ?_⟩
  · intro id
    have hkeep := total_keep (p := c.referenced) (f := fun _ g => g.pending.countP (·.id = id)) (m := c.gates)
    have hanswers := reading_undeliver (c := c) id (c.gates.entries.filter fun e => !c.referenced e.1)
    change waitingOf (keep c.referenced c.gates) id + (answersOf id).reading (c.undeliver _) =
      waitingOf c.gates id + (answersOf id).reading c
    simp only [waitingOf]
    omega
  · intro key
    rw [queueOf, removeOrphanedGates, lookup_keep]
    split
    · exact .refl _
    · exact nil_sublist _

/-- A limit is set without moving a trigger. -/
theorem setLimit_spec (id : Nat) {gates : Gates} {limit : Nat} : waitingOf (setLimit gates key limit) id = waitingOf gates id ∧
    ∀ k, (((setLimit gates key limit).lookup k).map (·.pending)).getD [] = ((gates.lookup k).map (·.pending)).getD [] := by
  have hne : ∀ {g : ConcurrencyGate} {k : String}, k ≠ key → (gates.insert key g).lookup k = gates.lookup k :=
    fun hk => AList.lookup_insert_ne hk
  unfold setLimit
  split
  · next g hg =>
    have hinsert := waitingOf_insert { g with globalLimit := limit } id hg
    refine ⟨by dsimp only at hinsert; omega, fun k => ?_⟩
    by_cases hk : k = key
    · subst hk
      simp [hg]
    · rw [hne hk]
  · next hg =>
    refine ⟨waitingOf_insert_new ⟨limit, 0, []⟩ id hg, fun k => ?_⟩
    by_cases hk : k = key
    · subst hk
      simp [hg]
    · rw [hne hk]

theorem foldl_setLimit_spec (limits : List (String × Nat)) (gates : Gates) :
    (∀ id, waitingOf (limits.foldl (fun gates limit => setLimit gates limit.1 limit.2) gates) id = waitingOf gates id) ∧
      ∀ k, (((limits.foldl (fun gates limit => setLimit gates limit.1 limit.2) gates).lookup k).map (·.pending)).getD [] =
        ((gates.lookup k).map (·.pending)).getD [] := by
  induction limits generalizing gates with
  | nil => exact ⟨fun _ => rfl, fun _ => rfl⟩
  | cons limit limits ih =>
    obtain ⟨hwaiting, hqueue⟩ := ih (setLimit gates limit.1 limit.2)
    exact ⟨fun id => (hwaiting id).trans (setLimit_spec id).1, fun k => (hqueue k).trans ((setLimit_spec 0).2 k)⟩

theorem drained_handleAdd {r : WatchJobsRequest} : Drained c (c.handleAdd r) := by
  let limits := r.concurrencyLimits.filterMap (·.gate)
  obtain ⟨hwaiting, hqueue⟩ := foldl_setLimit_spec limits c.gates
  let c₁ : Connections := { c with
    streams := c.streams.add (.connected r (limits.map (·.1)))
    gates := limits.foldl (fun gates limit => setLimit gates limit.1 limit.2) c.gates }
  have hadd : Drained c c₁ := by
    refine ⟨⟨rfl, rfl⟩, fun id => ?_, fun key => ?_⟩
    · have hstream : (answersOf id).onStreams (c.streams.add (.connected r (limits.map (·.1)))) =
          (answersOf id).onStreams c.streams := Meter.onStreams_add
      rw [places, places, hwaiting id, Meter.reading, Meter.reading, hstream]
    · have hsame : c₁.queueOf key = c.queueOf key := hqueue key
      exact hsame ▸ .refl _
  exact hadd.trans drained_removeOrphanedGates

/-- A stream moves no trigger to or from a gate. -/
theorem streamStep_spec {m : Move} {i : Nat} {st : Stream} (h : c.streams.lookup i = some st)
    (hs : c.streamStep i st m = some c') :
    c'.given = c.given ∧ (c'.phase = c.phase ∨ c'.phase = .idle) ∧ (∀ id, c'.places id = c.places id) ∧
      ∀ key, (c'.queueOf key).Sublist (c.queueOf key) := by
  by_cases hm : ∃ i, m = .down i
  · obtain ⟨i', rfl⟩ := hm
    simp only [streamStep] at hs
    split at hs
    · next hdown =>
      have hresolve : Drained c ({ c with streams := c.streams.erase i }.resolveAll st.inflight.entries) := by
        obtain ⟨-, hapart⟩ :=
          Meter.resolveAll_keeps st.inflight.entries
        refine ⟨⟨hapart.given, hapart.phase⟩, fun id => ?_, fun key => ?_⟩
        · rw [places, Meter.reading_down h hdown.2.1, hapart.gates]
          rfl
        · rw [queueOf, hapart.gates]
          exact .refl _
      cases hs
      split
      · have := hresolve.trans drained_removeOrphanedGates
        exact ⟨this.frame.given, .inr rfl, this.places, this.queue⟩
      · exact ⟨hresolve.frame.given, .inl hresolve.frame.phase, hresolve.places, hresolve.queue⟩
    · cases hs
  · have hread := fun id => Meter.reading_streamStep (μ := answersOf id) (fun i heq => hm ⟨i, heq⟩) h hs
    obtain ⟨-, hapart⟩ := hread 0
    refine ⟨hapart.given, .inl hapart.phase, fun id => ?_, fun key => ?_⟩
    · rw [places, places, (hread id).1, hapart.gates]
    · rw [queueOf, queueOf, hapart.gates]

/-! ## Whole runs -/

/-- What a step does to the queues: some triggers leave, and the one just given may be added at the end. -/
def KeepsOrder (c c' : Connections) : Prop :=
  ∀ key, ∃ kept new, c'.queueOf key = kept ++ new ∧ kept.Sublist (c.queueOf key) ∧ ∀ req ∈ new, req.id = c.given

theorem keepsOrder_of_sublist (h : ∀ key, (c'.queueOf key).Sublist (c.queueOf key)) : KeepsOrder c c' :=
  fun key => ⟨c'.queueOf key, [], (append_nil _).symm, h key, fun _ hreq => absurd hreq not_mem_nil⟩

/-- Each trigger that was given is in one place; nothing is at a gate or on a stream after shutdown. -/
structure Inv (c : Connections) : Prop where
  once : ∀ id, c.places id = if id < c.given then 1 else 0
  stopped : c.phase = .stopped → c.gates = ∅ ∧ c.streams.table.entries = []

theorem inv_empty : empty.Inv := by
  constructor
  · intro id
    rfl
  · intro h
    cases h

/-- A step that gives no trigger and does not end the shutdown. -/
theorem Inv.drained (h : c.Inv) (hgiven : c'.given = c.given) (hphase : c'.phase ≠ .stopped)
    (hplaces : ∀ id, c'.places id = c.places id) : c'.Inv := by
  constructor
  · intro id
    rw [hplaces id, hgiven]
    exact h.once id
  · exact fun hstopped => absurd hstopped hphase

theorem inv_step {m : Move} (h : c.Inv) (hs : c.step m = some c') : c'.Inv ∧ KeepsOrder c c' := by
  have hdrained : ∀ {c' : Connections}, c.phase = .idle → Drained c c' → c'.Inv ∧ KeepsOrder c c' := by
    intro c' hidle hd
    refine ⟨h.drained hd.frame.given ?_ hd.places, keepsOrder_of_sublist hd.queue⟩
    rw [hd.frame.phase, hidle]
    exact Phase.noConfusion
  have hstream : ∀ {i : Nat}, ((c.streams.lookup i).bind fun st => c.streamStep i st m) = some c' →
      c'.Inv ∧ KeepsOrder c c' := by
    intro i hs
    obtain ⟨st, hst, hs⟩ := Option.bind_eq_some_iff.1 hs
    obtain ⟨hgiven, hphase, hplaces, hqueue⟩ := streamStep_spec hst hs
    refine ⟨h.drained hgiven ?_ hplaces, keepsOrder_of_sublist hqueue⟩
    -- a stream is there, so the shutdown has not ended
    intro hstopped
    rcases hphase with heq | heq
    · obtain ⟨-, hnone⟩ := h.stopped (heq.symm.trans hstopped)
      have hmem := AList.mem_lookup_iff.1 hst
      rw [hnone] at hmem
      cases hmem
    · rw [heq] at hstopped
      cases hstopped
  cases m with
  | add req =>
    obtain ⟨hidle, rfl⟩ := of_guard hs
    exact hdrained hidle drained_handleAdd
  | closeStream i =>
    obtain ⟨hidle, rfl⟩ := of_guard hs
    unfold handleCloseStream
    split
    · exact hdrained hidle ⟨.refl, fun _ => rfl, fun _ => .refl _⟩
    · next st hst =>
      have hclose : ∀ id, (answersOf id).onStreams (c.streams.update i (·.close)) = (answersOf id).onStreams c.streams :=
        fun id => Meter.onStreams_update_same hst rfl
      refine ⟨h.drained rfl Phase.noConfusion fun id => ?_, keepsOrder_of_sublist fun key => .refl _⟩
      rw [places, places, Meter.reading, Meter.reading, hclose id]
  | trigger appId target concurrencyKey pick =>
    obtain ⟨hidle, rfl⟩ := of_guard hs
    let c₁ : Connections := { c with given := c.given + 1 }
    let req : TriggerRequest := ⟨c.given, appId, target, concurrencyKey⟩
    obtain ⟨hframe, -, hqueue⟩ := handleTriggerRequest_spec pick req 0
    refine ⟨⟨fun id => ?_, fun hstopped => ?_⟩, fun key => ?_⟩
    · rw [(handleTriggerRequest_spec pick req id).2.1, hframe.given]
      have honce : c₁.places id = if id < c.given then 1 else 0 := h.once id
      rw [honce]
      show _ + (if c.given = id then 1 else 0) = if id < c.given + 1 then 1 else 0
      split <;> split <;> split <;> omega
    · rw [hframe.phase] at hstopped
      exact absurd (hidle.symm.trans hstopped) Phase.noConfusion
    · obtain ⟨new, heq, hnew⟩ := hqueue key
      exact ⟨c.queueOf key, new, heq, .refl _, fun r hr => by rw [hnew r hr]⟩
  | release n pick =>
    simp only [step] at hs
    split at hs
    · obtain ⟨hidle, rfl⟩ := of_guard hs
      have hevent : Drained c { c with releases := c.releases.eraseIdx n } := ⟨⟨rfl, rfl⟩, fun _ => rfl, fun _ => .refl _⟩
      exact hdrained hidle (hevent.trans drained_handleConcurrencyRelease)
    · cases hs
  | schedulerInfo count idx order pick =>
    obtain ⟨hidle, rfl⟩ := of_guard hs
    exact hdrained hidle.1 drained_handleSchedulerInfoUpdate
  | shutdown =>
    obtain ⟨-, rfl⟩ := of_guard hs
    exact ⟨h.drained rfl Phase.noConfusion fun _ => rfl, keepsOrder_of_sublist fun key => .refl _⟩
  | finish =>
    obtain ⟨hstopping, rfl⟩ := of_guard hs
    refine ⟨⟨fun id => ?_, fun _ => ⟨rfl, hstopping.2⟩⟩, keepsOrder_of_sublist fun key => nil_sublist _⟩
    have hanswers := reading_undeliver (c := c) id c.gates.entries
    have honce := h.once id
    change 0 + (answersOf id).reading (c.undeliver c.gates.entries) = if id < c.given then 1 else 0
    rw [← honce, places, waitingOf, total]
    omega
  | take | sent | sendFailed | recv | down => exact hstream hs

/-- What moves lead to from the empty pool. -/
def Reached : Connections → Prop := Reachable (· = empty) (Steps (fun _ _ => True) step)

theorem Reached.inv (h : c.Reached) : c.Inv := by
  refine Reachable.invariant Inv ?_ ?_ h
  · rintro c rfl
    exact inv_empty
  · rintro c c' hinv ⟨m, -, hs⟩
    exact (inv_step hinv hs).1

/-! ## The shutdown ends -/

/-- What the streams still have to do before they are shut down. -/
def work (c : Connections) : Nat :=
  total (fun _ st => 2 * st.queue.length + (if st.sending.isSome then 1 else 0) + 1) c.streams.table

theorem work_update {i : Nat} {st : Stream} {f : Stream → Stream} (h : c.streams.lookup i = some st)
    (hf : 2 * (f st).queue.length + (if (f st).sending.isSome then 1 else 0) <
      2 * st.queue.length + (if st.sending.isSome then 1 else 0)) :
    work { c with streams := c.streams.update i f } < c.work := by
  have := total_modify (f := fun _ st => 2 * st.queue.length + (if st.sending.isSome then 1 else 0) + 1) (g := f) h
  change total _ (Lib.Totals.modify i f c.streams.table) < total _ c.streams.table
  omega

/-- In a shutdown there is always something left to do. -/
theorem step_of_stopping (h : c.phase = .stopping) :
    ∃ m c', c.step m = some c' ∧ (c'.phase = .stopped ∨ c'.phase = .stopping ∧ c'.work < c.work) := by
  cases hentries : c.streams.table.entries with
  | nil => exact ⟨.finish, _, by rw [step, if_pos ⟨h, hentries⟩], .inl rfl⟩
  | cons e es =>
    have hst : c.streams.lookup e.1 = some e.2 := AList.mem_lookup_iff.2 (hentries ▸ mem_cons_self)
    cases hsending : e.2.sending with
    | some id =>
      refine ⟨.sent e.1, { c with streams := c.streams.update e.1 (·.doneSending) }, ?_, .inr ⟨h, work_update hst ?_⟩⟩
      · simp [step, hst, streamStep, hsending]
      · simp [Stream.doneSending, hsending]
    | none =>
      cases hqueue : e.2.queue with
      | cons x rest =>
        refine ⟨.take e.1, { c with streams := c.streams.update e.1 (·.take x rest) }, ?_, .inr ⟨h, work_update hst ?_⟩⟩
        · simp [step, hst, streamStep, hsending, hqueue]
        · simp [Stream.take, hqueue]
          omega
      | nil =>
        let c₁ : Connections := { c with streams := c.streams.erase e.1 }
        obtain ⟨hstreams, -, hphase, -, -⟩ := Meter.resolveAll_keeps e.2.inflight.entries
        refine ⟨.down e.1, c₁.resolveAll e.2.inflight.entries, ?_, .inr ⟨hphase.trans h, ?_⟩⟩
        · simp [step, hst, streamStep, hsending, hqueue, h, c₁]
        · have := total_erase (f := fun _ st => 2 * st.queue.length + (if st.sending.isSome then 1 else 0) + 1) hst
          rw [work, hstreams]
          change total _ (c.streams.table.erase e.1) < total _ c.streams.table
          omega

/-- Every trigger is in one place, and answered once the loop has shut down, which it does; and the order of
what stays in a queue is kept. -/
theorem trigger_answered_once (h : c.Reached) :
    (∀ id < c.given, ∃ place, c.placesOf id = [place] ∧ (c.phase = .stopped → ∃ result, place = .answered result)) ∧
      (c.phase = .stopping → ∃ ms c', runFrom step c ms = some c' ∧ c'.phase = .stopped) ∧
      ∀ m c', c.step m = some c' → KeepsOrder c c' := by
  refine ⟨?_, exists_runFrom work fun c => step_of_stopping, fun m c' hs => (inv_step h.inv hs).2⟩
  intro id hid
  have hlength : (c.placesOf id).length = 1 := by
    rw [length_placesOf, h.inv.once id, if_pos hid]
  obtain ⟨place, hplace⟩ := length_eq_one_iff.1 hlength
  refine ⟨place, hplace, fun hstopped => ?_⟩
  obtain ⟨hgates, hstreams⟩ := h.inv.stopped hstopped
  have hmem : place ∈ c.placesOf id := hplace ▸ mem_singleton_self _
  rw [placesOf, hgates, hstreams] at hmem
  obtain ⟨result, -, rfl⟩ : ∃ result, (id, result) ∈ c.answered ∧ Place.answered result = place := by simpa using hmem
  exact ⟨result, rfl⟩

/-- Two triggers of an actor type with a limit of one; the second waits until the first is answered, and is
on the stream when the loop shuts down. -/
theorem trigger_answered_once_limit :
    let moves : List Move := [.add ⟨"app", true, ["T"], [⟨1, some "T", none⟩]⟩,
      .trigger "app" (.actor "T") none (fun _ => 0), .trigger "app" (.actor "T") none (fun _ => 0),
      .take 0, .sent 0, .recv 0 1 true, .release 0 (fun _ => 0), .shutdown, .take 0, .sent 0, .down 0, .finish]
    ∃ c, runFrom step empty moves = some c ∧ c.given = 2 ∧ ∃ place, c.placesOf 1 = [place] ∧
      ∃ result, place = .answered result := by
  intro moves
  have hrun : (runFrom step empty moves).map (fun c => (c.given, c.phase)) = some (2, .stopped) := by
    decide +kernel
  obtain ⟨c, hc, heq⟩ := Option.map_eq_some_iff.1 hrun
  have hreached : c.Reached := reachable_of_runFrom (.start rfl) (fun _ _ _ => trivial) hc
  have hgiven : c.given = 2 := congrArg Prod.fst heq
  obtain ⟨place, hplace, hstopped⟩ := (trigger_answered_once hreached).1 1 (by omega)
  exact ⟨c, hc, hgiven, place, hplace, hstopped (congrArg Prod.snd heq)⟩

end Connections

end Dapr.JobPool
