import Dapr.SchedulerPlacement.Rounds
/-!
# Dissemination does not stall

Every round waits for the ack of some member, and every change that no round covers waits for a
round that holds its type or for the coalesce timer. A handler that takes streams away leaves rounds
that wait for nobody, and goes through them before it returns: until then they are due.
-/

namespace Dapr.SchedulerPlacement

open Lib.Runs List

/-- Some member has not acknowledged the phase. -/
def Round.Waiting (r : Round) : Prop := ∃ i ∈ r.members, i ∉ r.acked

namespace Connections

/-- All rounds but those that are due wait for somebody. -/
structure Steady (due : List Nat) (c : Connections) : Prop extends Ledger c where
  streams_lt : ∀ i ∈ c.streams, i < c.streamIDx
  nodup : c.streams.Nodup
  members_nodup : ∀ r ∈ c.rounds, r.members.Nodup
  waiting : ∀ r ∈ c.rounds, r.seq ∉ due → r.Waiting

/-- A change that is not held up by a round is due to be disseminated when the timer fires. -/
def Prompt (c : Connections) : Prop :=
  c.streams ≠ [] → ∀ t ∈ c.pendingTypes, c.lockedTypes t = none → c.coalesceTimer = true

variable {c : Connections} {r : Round} {due due' : List Nat} (ranges : Ranges)

theorem Steady.mono (h : c.Steady due) (hsub : due ⊆ due') : c.Steady due' :=
  { h with waiting := fun r hr hnot => h.waiting r hr fun hin => hnot (hsub hin) }

/-- With fewer acks than members, some member has not acknowledged. -/
theorem Steady.waiting_of_lt (h : c.Steady due) (hr : r ∈ c.rounds) (hlen : r.acked.length < r.members.length) :
    r.Waiting := by
  by_contra hnone
  have hall : r.members ⊆ r.acked := fun i hi => Classical.byContradiction fun hna => hnone ⟨i, hi, hna⟩
  exact absurd (subperm_of_subset (h.members_nodup r hr) hall).length_le (Nat.not_le.2 hlen)

/-! ## Rounds -/

theorem Steady.startRound (h : c.Steady due) {types : List String} (hfree : ∀ t ∈ types, c.lockedTypes t = none)
    (hne : c.streams ≠ []) : (c.startRound types).Steady due := by
  obtain ⟨i, hi⟩ := exists_mem_of_ne_nil _ hne
  exact { { h.openRound hfree with }, h with
    members_nodup := forall_mem_cons.2 ⟨h.nodup, h.members_nodup⟩
    waiting := forall_mem_cons.2 ⟨fun _ => ⟨i, hi, not_mem_nil⟩, h.waiting⟩ }

theorem Steady.maybeDisseminate (h : c.Steady due) : c.maybeDisseminate.Steady due := by
  unfold Connections.maybeDisseminate
  split
  · exact h
  · split
    · exact { h with }
    · next hne =>
      dsimp only
      split
      · exact h
      · refine h.startRound (fun t ht => ?_) hne
        simpa using (mem_filter.1 ((mem_insertionSort _).1 ht)).2

/-- Whatever was pending before, the types that no round holds are taken up. -/
theorem prompt_maybeDisseminate (c : Connections) : c.maybeDisseminate.Prompt := by
  unfold Connections.maybeDisseminate
  split
  · next hor =>
    intro _ t ht _
    rcases hor with hnil | harmed
    · rw [hnil] at ht
      cases ht
    · exact harmed
  · split
    · next hnil => exact fun hne => absurd hnil hne
    · dsimp only
      have hmem : ∀ t, t ∈ (c.pendingTypes.filter fun t => c.lockedTypes t = none).insertionSort (· ≤ ·) ↔
          t ∈ c.pendingTypes ∧ c.lockedTypes t = none := fun t => by simp
      split
      · next hnil =>
        intro _ t ht hfree
        have hin := (hmem t).2 ⟨ht, hfree⟩
        rw [hnil] at hin
        cases hin
      · -- a type that is still pending was held by another round
        intro _ t ht hfree
        obtain ⟨hpending, hnot⟩ := mem_filter.1 ht
        simp only [Connections.startRound, Connections.sendAll, Connections.openRound] at hfree
        have hnot := of_decide_eq_true hnot
        rw [if_neg hnot] at hfree
        exact absurd ((hmem t).2 ⟨hpending, hfree⟩) hnot

/-- A round that is due may be dropped. -/
theorem Steady.release (h : c.Steady (r.seq :: due)) (hr : r ∈ c.rounds) : (c.release r).Steady due := by
  refine { h.toLedger.release hr, h with members_nodup := fun r₀ hr₀ => ?_, waiting := fun r₀ hr₀ hnot => ?_ }
  · exact h.members_nodup r₀ (mem_filter.1 hr₀).1
  · obtain ⟨hold, hne⟩ := mem_filter.1 hr₀
    refine h.waiting r₀ hold fun hin => ?_
    rcases mem_cons.1 hin with heq | hin
    · exact of_decide_eq_true hne heq
    · exact hnot hin

theorem Steady.startCoalesceTimer (h : c.Steady due) : c.startCoalesceTimer.Steady due := by
  unfold Connections.startCoalesceTimer
  split
  · exact h
  · exact { h with }

theorem Steady.completeRound (h : c.Steady (r.seq :: due)) (hr : r ∈ c.rounds) : (c.completeRound r).Steady due := by
  unfold Connections.completeRound
  dsimp only
  split
  · exact (h.release hr).startCoalesceTimer
  · exact (h.release hr).maybeDisseminate

theorem prompt_completeRound (c : Connections) (r : Round) : (c.completeRound r).Prompt := by
  unfold Connections.completeRound
  dsimp only
  split
  · next hwindow =>
    have harmed : (c.release r).startCoalesceTimer.coalesceTimer = true := by
      unfold Connections.startCoalesceTimer
      split
      · next hor => exact hor.resolve_left (not_le.2 hwindow.1)
      · rfl
    exact fun _ _ _ _ => harmed
  · exact prompt_maybeDisseminate _

theorem Steady.nextPhase (h : c.Steady (r.seq :: due)) (hr : r ∈ c.rounds) (hne : r.members ≠ []) (phase : Operation)
    (o : Order) : ((c.setRound { r with phase := phase, acked := [] }).sendAll r.members o).Steady due := by
  have hledger : (c.setRound { r with phase := phase, acked := [] }).Ledger :=
    h.setRound hr rfl rfl (h.members r hr) ⟨nil_subset _, nodup_nil⟩
  refine { { hledger with }, h with
    members_nodup := forall_setRound h.members_nodup (h.members_nodup r hr), waiting := fun r₀ hr₀ hnot => ?_ }
  rcases mem_setRound hr₀ with ⟨hold, hother⟩ | rfl
  · exact h.waiting r₀ hold fun hin => (mem_cons.1 hin).elim hother hnot
  · obtain ⟨i, hi⟩ := exists_mem_of_ne_nil _ hne
    exact ⟨i, hi, not_mem_nil⟩

theorem Steady.advanceRound {seq : Nat} (h : c.Steady (seq :: due)) : (c.advanceRound ranges seq).Steady due := by
  unfold Connections.advanceRound
  split
  · next hround =>
    refine { h with waiting := fun r hr hnot => h.waiting r hr fun hin => ?_ }
    have hne : r.seq ≠ seq := by simpa using find?_eq_none.1 hround r hr
    exact (mem_cons.1 hin).elim hne hnot
  · next r hround =>
    obtain ⟨hr, rfl⟩ := mem_of_round hround
    split
    · exact h.completeRound hr
    · next hne =>
      split
      · next hlen =>
        refine { h with waiting := fun r₀ hr₀ hnot => ?_ }
        by_cases heq : r₀.seq = r.seq
        · rw [h.eq_of_seq hr₀ hr heq]
          exact h.waiting_of_lt hr hlen
        · exact h.waiting r₀ hr₀ fun hin => (mem_cons.1 hin).elim heq hnot
      · split
        · exact h.nextPhase hr hne .update _
        · exact h.nextPhase hr hne .unlock _
        · exact h.completeRound hr

theorem Prompt.advanceRound (h : c.Prompt) (seq : Nat) : (c.advanceRound ranges seq).Prompt := by
  unfold Connections.advanceRound
  split
  · exact h
  · split
    · exact prompt_completeRound c _
    · split
      · exact h
      · split
        · exact h
        · exact h
        · exact prompt_completeRound c _

/-- All rounds that were due have gone on. -/
theorem Steady.advanceRounds (h : c.Steady due) : (c.advanceRounds ranges due).Steady [] := by
  induction due generalizing c with
  | nil => exact h
  | cons seq due ih => exact ih (h.advanceRound ranges)

/-! ## Streams -/

theorem Round.Waiting.drop {i : Nat} (h : r.Waiting) (hi : i ∉ r.members) : (r.drop i).Waiting := by
  obtain ⟨j, hj, hna⟩ := h
  refine ⟨j, mem_filter.2 ⟨hj, ?_⟩, fun hin => hna (mem_filter.1 hin).1⟩
  exact decide_eq_true fun heq => hi (heq ▸ hj)

/-- The rounds that a stream was a member of are due when it is gone. -/
theorem Steady.dropStream (h : c.Steady due) (i : Nat) :
    (c.dropStream i).Steady ((c.rounds.filter fun r => i ∈ r.members).map Round.seq ++ due) := by
  refine { h.toLedger.dropStream i with
    streams_lt := fun j hj => h.streams_lt j (mem_filter.1 hj).1
    nodup := h.nodup.filter _
    members_nodup := fun r hr => ?_
    waiting := fun r hr hnot => ?_ }
  · obtain ⟨r₀, hr₀, rfl⟩ := mem_dropStream hr
    exact (h.members_nodup r₀ hr₀).filter _
  · obtain ⟨r₀, hr₀, rfl⟩ := mem_dropStream hr
    rw [mem_append, not_or] at hnot
    refine Round.Waiting.drop (h.waiting r₀ hr₀ hnot.2) fun hmem => hnot.1 ?_
    exact mem_map.2 ⟨r₀, mem_filter.2 ⟨hr₀, decide_eq_true hmem⟩, rfl⟩

theorem Steady.removeStream (h : c.Steady due) (i : Nat) :
    (c.removeStream i).1.Steady ((c.removeStream i).2 ++ due) := by
  unfold Connections.removeStream
  split
  · exact h
  · dsimp only
    split
    · exact { h.dropStream i with }
    · exact h.dropStream i

theorem Steady.removeStreams (h : c.Steady due) (gone : List Nat) :
    (c.removeStreams gone).1.Steady ((c.removeStreams gone).2 ++ due) := by
  induction gone generalizing c due with
  | nil => exact h
  | cons i gone ih =>
    refine (ih (h.removeStream i)).mono fun seq hin => ?_
    simp only [Connections.removeStreams, mem_append] at hin ⊢
    tauto

theorem Steady.abortRound (h : c.Steady due) {r' : Round} (hr : r' ∈ c.rounds) (hseq : r'.seq = r.seq)
    (htypes : r'.types = r.types) : (c.abortRound r).Steady due := by
  have hrel : c.release r = c.release r' := by
    simp only [Connections.release, hseq, htypes]
  have hreleased : (c.release r).Steady due := by
    rw [hrel]
    exact (h.mono (subset_cons_self _ _)).release hr
  unfold Connections.abortRound
  dsimp only
  split
  · exact { hreleased with }
  · exact { hreleased with }

/-! ## Events -/

theorem Steady.handleAdd (h : c.Steady due) (ranges : Ranges) (initial : ActorHost) :
    (c.handleAdd ranges initial).Steady due := by
  have hadd : c.addStream.Steady due := by
    refine { h.toLedger.addStream, h with streams_lt := streams_lt_addStream h.streams_lt, nodup := ?_ }
    exact pairwise_concat h.nodup fun i hi => Nat.ne_of_lt (h.streams_lt i hi)
  have hsnapshot : ∀ c' : Connections, c'.Steady due → (c'.sendSnapshot ranges c.streamIDx).1.Steady due := by
    intro c' h'
    unfold Connections.sendSnapshot
    split
    · exact h'
    · exact { { h'.toLedger.nextSeq with }, h' with }
  refine Steady.maybeDisseminate { hsnapshot _ ?_ with }
  exact { hadd with }

theorem Steady.handleReportedTypes (h : c.Steady due) (i : Nat) (host : ActorHost) :
    (c.handleReportedTypes i host).Steady due := by
  unfold Connections.handleReportedTypes
  split
  · exact h
  · exact Steady.maybeDisseminate { h with }

theorem Steady.setAcked (h : c.Steady []) (hr : r ∈ c.rounds) {i : Nat} (hi : i ∈ r.members) :
    (c.setRound { r with acked := r.acked.insert i }).Steady [r.seq] := by
  obtain ⟨hsub, hnd⟩ := h.acked r hr
  have hacked : r.acked.insert i ⊆ r.members := by
    intro j hj
    rcases mem_insert_iff.1 hj with rfl | hold
    · exact hi
    · exact hsub hold
  have hledger : (c.setRound { r with acked := r.acked.insert i }).Ledger :=
    h.setRound hr rfl rfl (h.members r hr) ⟨hacked, hnd.insert⟩
  exact { hledger, h with
    members_nodup := forall_setRound h.members_nodup (h.members_nodup r hr)
    waiting := forall_setRound (fun r₀ hr₀ _ => h.waiting r₀ hr₀ not_mem_nil) fun hnot => absurd mem_cons_self hnot }

/-- An ack of any stream, for any order. -/
theorem Steady.handleAck (h : c.Steady []) (hprompt : c.Prompt) (ranges : Ranges) (i : Nat) (ack : Ack) :
    (c.handleAck ranges i ack).Steady [] ∧ (c.handleAck ranges i ack).Prompt := by
  unfold Connections.handleAck
  split
  · exact ⟨h, hprompt⟩
  · split
    · split
      · exact ⟨{ h with }, hprompt⟩
      · exact ⟨h, hprompt⟩
    · split
      · exact ⟨h, hprompt⟩
      · next r hround =>
        obtain ⟨hr, hseq⟩ := mem_of_round hround
        split
        · exact ⟨h, hprompt⟩
        · next hi =>
          split
          · exact ⟨h, hprompt⟩
          · have hset : (c.setRound { r with acked := r.acked.insert i }).Steady [ack.seq] :=
              hseq ▸ h.setAcked hr (not_not.1 hi)
            have hprompt' : (c.setRound { r with acked := r.acked.insert i }).Prompt := hprompt
            exact ⟨hset.advanceRounds ranges, hprompt'.advanceRound ranges _⟩

/-- The rounds that are due go on, in any order. -/
theorem Steady.advanceAll (h : c.Steady due) :
    ((c.advanceRounds ranges (ranges.seqs due)).maybeDisseminate).Steady [] := by
  have hperm : c.Steady (ranges.seqs due) := h.mono (ranges.seqs_perm due).symm.subset
  exact (hperm.advanceRounds ranges).maybeDisseminate

theorem Steady.handleCloseStream (h : c.Steady []) (ranges : Ranges) (i : Nat) :
    (c.handleCloseStream ranges i).Steady [] := by
  have hremoved := h.removeStream i
  rw [append_nil] at hremoved
  exact hremoved.advanceAll ranges

theorem Steady.handleTimeout (h : c.Steady []) (ranges : Ranges) (seq : Nat) :
    (c.handleTimeout ranges seq).Steady [] := by
  unfold Connections.handleTimeout
  split
  · exact h
  · next r hround =>
    obtain ⟨r', hr', hw⟩ := h.removeStreams_round (r.members.filter fun i => i ∉ r.acked) (mem_of_round hround).1
    have hremoved := h.removeStreams (r.members.filter fun i => i ∉ r.acked)
    rw [append_nil] at hremoved
    exact (hremoved.abortRound hr' hw.seq hw.types).advanceAll ranges

theorem Prompt.handleTimeout (h : c.Prompt) (ranges : Ranges) (seq : Nat) : (c.handleTimeout ranges seq).Prompt := by
  unfold Connections.handleTimeout
  split
  · exact h
  · exact prompt_maybeDisseminate _

theorem steady_handleShutdown (c : Connections) : c.handleShutdown.Steady [] where
  round_seq := nofun
  distinct := nodup_nil
  locked := fun t seq => by simp [Connections.handleShutdown]
  members := nofun
  acked := nofun
  streams_lt := nofun
  nodup := nodup_nil
  members_nodup := nofun
  waiting := nofun

theorem Steady.handle (h : c.Steady []) (hprompt : c.Prompt) (ranges : Ranges) (e : EventConnections) :
    (c.handle ranges e).Steady [] ∧ (c.handle ranges e).Prompt := by
  cases e with
  | connAdd initial => exact ⟨h.handleAdd ranges initial, prompt_maybeDisseminate _⟩
  | reportedTypes i host =>
    refine ⟨h.handleReportedTypes i host, ?_⟩
    show (c.handleReportedTypes i host).Prompt
    unfold Connections.handleReportedTypes
    split
    · exact hprompt
    · exact prompt_maybeDisseminate _
  | ack i ack => exact h.handleAck hprompt ranges i ack
  | connCloseStream i => exact ⟨h.handleCloseStream ranges i, prompt_maybeDisseminate _⟩
  | roundTimeout seq => exact ⟨h.handleTimeout ranges seq, hprompt.handleTimeout ranges seq⟩
  | coalesceFire => exact ⟨Steady.maybeDisseminate { h with }, prompt_maybeDisseminate _⟩
  | shutdown => exact ⟨steady_handleShutdown c, fun hne => absurd rfl hne⟩

/-! ## Runs -/

/-- Handle events one after the other, each with the orders in which maps are ranged over. -/
def run (c : Connections) (events : List (Ranges × EventConnections)) : Connections :=
  events.foldl (fun c e => c.handle e.1 e.2) c

/-- The controller cannot get stuck by itself. -/
structure Healthy (c : Connections) : Prop where
  members : ∀ r ∈ c.rounds, r.members ⊆ c.streams
  acked : ∀ r ∈ c.rounds, r.acked ⊆ r.members ∧ ∃ i ∈ r.members, i ∉ r.acked
  disjoint : c.rounds.Pairwise fun r r' => r.seq ≠ r'.seq ∧ r.types.Disjoint r'.types
  locked : ∀ t seq, c.lockedTypes t = some seq ↔ ∃ r ∈ c.rounds, r.seq = seq ∧ t ∈ r.types
  prompt : c.streams ≠ [] → ∀ t ∈ c.pendingTypes, c.lockedTypes t = none → c.coalesceTimer = true

theorem Steady.healthy (h : c.Steady []) (hprompt : c.Prompt) : c.Healthy where
  members := h.members
  acked := fun r hr => ⟨(h.acked r hr).1, h.waiting r hr not_mem_nil⟩
  disjoint := by
    refine (pairwise_map.1 h.distinct).imp_of_mem fun {r r'} hr hr' hne => ⟨hne, ?_⟩
    exact disjoint_left.2 fun t ht ht' => hne (h.toLedger.disjoint hr hr' ht ht')
  locked := h.locked
  prompt := hprompt

/-- After any events a round always waits for the ack of a connected member, and a pending change for a round or the
timer. -/
theorem dissemination_never_stalls (coalesceWindow : Int) (events : List (Ranges × EventConnections)) :
    (run (new coalesceWindow) events).Healthy := by
  have hinv : ∀ c : Connections, c.Steady [] → c.Prompt → (c.run events).Steady [] ∧ (c.run events).Prompt := by
    induction events with
    | nil => exact fun c h hprompt => ⟨h, hprompt⟩
    | cons e events ih =>
      intro c h hprompt
      obtain ⟨h', hprompt'⟩ := h.handle hprompt e.1 e.2
      exact ih _ h' hprompt'
  have hnew : (new coalesceWindow).Steady [] := { steady_handleShutdown (new coalesceWindow) with }
  obtain ⟨h, hprompt⟩ := hinv _ hnew fun hne => absurd rfl hne
  exact h.healthy hprompt

end Connections

end Dapr.SchedulerPlacement
