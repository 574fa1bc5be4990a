import Dapr.SchedulerPlacement.Barrier
/-!
# Sidecars agree on placement

Every event the controller handles keeps what it knows of its streams, so in every state
that a namespace reaches, two sidecars that may both route by a type's table have the same.
-/

namespace Dapr.SchedulerPlacement

open Lib.Delivery List

namespace Connections

/-- The books are in order and each type has a table the streams go by. -/
structure Inv (c : Connections) (seen : Nat → Nat) : Prop where
  wf : c.WellFormed
  sound : ∃ T, c.Sound seen T

variable {c : Connections} {seen : Nat → Nat} {r : Round} (ranges : Ranges)

theorem inv_new (coalesceWindow : Int) : Inv (.new coalesceWindow) fun _ => 0 :=
  ⟨wellFormed_new coalesceWindow, _, Sound.of_no_streams (fun _ => le_rfl) rfl⟩

theorem Inv.seen_le (h : c.Inv seen) : ∀ i, seen i ≤ (c.orders i).length := by
  obtain ⟨T, hT⟩ := h.sound
  exact hT.seen_le

/-! ## Rounds -/

theorem Inv.markPending (h : c.Inv seen) (types : List String) : (c.markPending types).Inv seen := by
  obtain ⟨T, hT⟩ := h.sound
  exact ⟨h.wf.markPending types, T, hT.markPending types⟩

theorem Inv.clearPending (h : c.Inv seen) (hnil : c.streams = []) : Inv { c with pendingTypes := [] } seen :=
  ⟨{ h.wf with }, _, Sound.of_no_streams h.seen_le hnil⟩

theorem Inv.maybeDisseminate (h : c.Inv seen) : c.maybeDisseminate.Inv seen := by
  unfold Connections.maybeDisseminate
  split
  · exact h
  · split
    · exact h.clearPending ‹_›
    · dsimp only
      split
      · exact h
      · obtain ⟨T, hT⟩ := h.sound
        have hfree : ∀ t ∈ (c.pendingTypes.filter fun t => c.lockedTypes t = none).insertionSort (· ≤ ·),
            c.lockedTypes t = none := by
          intro t ht
          rw [mem_insertionSort, mem_filter] at ht
          simpa using ht.2
        exact ⟨h.wf.startRound hfree, T, hT.startRound h.wf hfree⟩

theorem Inv.startCoalesceTimer (h : c.Inv seen) : c.startCoalesceTimer.Inv seen := by
  unfold Connections.startCoalesceTimer
  split
  · exact h
  · obtain ⟨T, hT⟩ := h.sound
    exact ⟨{ h.wf with }, T, { hT with }⟩

/-- The members of a round that came to its last phase hold its tables. -/
theorem Sound.holds_of_unlock {T : String → Table} (hT : c.Sound seen T) (hr : r ∈ c.rounds)
    (hphase : r.phase = .unlock) :
    ∀ t ∈ r.types, ∀ i ∈ c.streams, sidecar.Ahead (seen i) (c.orders i) (Disseminator.Holds t (T t)) := by
  intro t ht i hi
  have hin := hT.tracks i hi t (some r) ⟨hr, ht⟩
  by_cases him : i ∈ r.members
  · have := ((tracks_of_mem him).1 hin).before
    rwa [hphase] at this
  · exact ((tracks_of_not_mem him).1 hin).imp fun d hd => hd.holds

variable (h : c.Inv seen)
include h

/-- A round can be dropped after its last phase, or when all its members are gone. -/
theorem Inv.release (hr : r ∈ c.rounds) (hdone : r.members = [] ∨ r.phase = .unlock) : (c.release r).Inv seen := by
  obtain ⟨T, hT⟩ := h.sound
  refine ⟨h.wf.release hr, ?_⟩
  rcases hdone with hnil | hphase
  · -- the streams left have no table for its types, so any will do
    refine ⟨fun t => if t ∈ r.types then Store.table c.store.hosts.entries t else T t, ?_⟩
    refine hT.release h.wf hr (fun t ht => if_neg ht) ?_ ?_
    · intro t ht _
      rw [if_pos ht]
      exact .refl _
    · intro t ht i hi
      have hin := hT.tracks i hi t (some r) ⟨hr, ht⟩
      have hnot : i ∉ r.members := by simp [hnil]
      exact ((tracks_of_not_mem hnot).1 hin).imp fun d hd => hd.holds
  · refine ⟨T, hT.release h.wf hr (fun _ _ => rfl) ?_ (hT.holds_of_unlock hr hphase)⟩
    intro t ht hpend
    refine hT.store t hpend fun r₀ hr₀ ht₀ => ?_
    rw [h.wf.ledger.eq_of_seq hr₀ hr (h.wf.ledger.disjoint hr₀ hr ht₀ ht), hphase]
    simp

theorem Inv.completeRound (hr : r ∈ c.rounds) (hdone : r.members = [] ∨ r.phase = .unlock) :
    (c.completeRound r).Inv seen := by
  unfold Connections.completeRound
  dsimp only
  split
  · exact (h.release hr hdone).startCoalesceTimer
  · exact (h.release hr hdone).maybeDisseminate

theorem Inv.sendUpdate (hr : r ∈ c.rounds) (hphase : r.phase = .lock)
    (hall : ∀ i ∈ r.members, i ∈ r.acked) : (c.sendUpdate ranges r).Inv seen := by
  obtain ⟨T, hT⟩ := h.sound
  refine ⟨?_, _, hT.sendUpdate h.wf ranges hr hphase hall⟩
  refine h.wf.advance hr (by simp [hphase, Operation.index]) rfl rfl fun t ht => ?_
  simpa [Order.Concerns, Order.update, Store.tables] using ht

theorem Inv.sendUnlock (hr : r ∈ c.rounds) (hphase : r.phase = .update)
    (hall : ∀ i ∈ r.members, i ∈ r.acked) : (c.sendUnlock r).Inv seen := by
  obtain ⟨T, hT⟩ := h.sound
  refine ⟨?_, _, hT.sendUnlock h.wf hr hphase hall⟩
  refine h.wf.advance hr (by simp [hphase, Operation.index]) rfl rfl fun t ht => ?_
  simp [Order.Concerns, Order.unlock] at ht

theorem Inv.advanceRound (seq : Nat) : (c.advanceRound ranges seq).Inv seen := by
  unfold Connections.advanceRound
  split
  · exact h
  · rename_i r hround
    have hr := (mem_of_round hround).1
    split
    · exact h.completeRound hr (.inl ‹_›)
    · split
      · exact h
      · rename_i hlen
        have hall := h.wf.ledger.all_acked hr hlen
        split
        · exact h.sendUpdate ranges hr ‹_› hall
        · exact h.sendUnlock hr ‹_› hall
        · exact h.completeRound hr (.inr ‹_›)

theorem Inv.advanceRounds (seqs : List Nat) : (c.advanceRounds ranges seqs).Inv seen := by
  induction seqs generalizing c with
  | nil => exact h
  | cons seq seqs ih => exact ih (h.advanceRound ranges seq)

/-! ## Streams -/

theorem Inv.removeStream (i : Nat) : (c.removeStream i).1.Inv seen := by
  obtain ⟨T, hT⟩ := h.sound
  have hdrop : (c.dropStream i).Inv seen := ⟨h.wf.dropStream i, T, hT.dropStream h.wf i⟩
  unfold Connections.removeStream
  split
  · exact h
  · dsimp only
    split
    · exact hdrop.clearPending ‹_›
    · exact hdrop

theorem Inv.removeStreams (gone : List Nat) : (c.removeStreams gone).1.Inv seen := by
  induction gone generalizing c with
  | nil => exact h
  | cons i gone ih => exact ih (h.removeStream i)

/-- A round may be dropped at any time once the members that did not acknowledge its phase are
gone: the others hold the table from before the round or all hold the one it brought. -/
theorem Inv.abortRound {r' : Round} (hr : r' ∈ c.rounds) (hseq : r'.seq = r.seq)
    (htypes : r'.types = r.types) (hall : ∀ i ∈ r'.members, i ∈ r'.acked) : (c.abortRound r).Inv seen := by
  obtain ⟨T, hT⟩ := h.sound
  have hrel : c.release r = c.release r' := by
    simp only [Connections.release, hseq, htypes]
  have hother : ∀ r₀ ∈ (c.release r).rounds, r.seq ≠ r₀.seq := fun r₀ hr₀ heq => by
    simpa [heq] using (mem_filter.1 hr₀).2
  have hlt : ∀ i ∈ r.members.filter (fun i => i ∈ c.streams), i < (c.release r).streamIDx := fun i hi =>
    h.wf.streams_lt i (by simpa using (mem_filter.1 hi).2)
  have hwf : ((c.release r).sendAll (r.members.filter fun i => i ∈ c.streams) (.unlock r.seq r.types)).WellFormed :=
    (hrel ▸ h.wf.release hr).sendAll hlt (hseq ▸ h.wf.round_seq r' hr) fun r₀ hr₀ heq => absurd heq (hother r₀ hr₀)
  unfold Connections.abortRound
  dsimp only
  split
  · rename_i hnil
    exact ⟨hwf, _, Sound.of_no_streams (seen_le_sendAll h.seen_le) hnil⟩
  · refine ⟨{ hwf with }, T, ?_⟩
    have hholds : ∀ t ∈ r'.types, ∀ i ∈ c.streams,
        sidecar.Ahead (seen i) (c.orders i) (Disseminator.Holds t (T t)) := by
      intro t ht i hi
      have hin := hT.tracks i hi t (some r') ⟨hr, ht⟩
      by_cases him : i ∈ r'.members
      · rw [tracks_of_mem him] at hin
        have hbefore := hin.before
        have hafter := hin.acked (hall i him)
        cases hphase : r'.phase with
        | update => rwa [hphase] at hafter
        | lock | unlock => rwa [hphase] at hbefore
      · exact ((tracks_of_not_mem him).1 hin).imp fun d hd => hd.holds
    have hreleased : ((c.markPending r'.types).release r').Sound seen T := by
      refine (hT.markPending r'.types).release (h.wf.markPending _) hr (fun _ _ => rfl) (fun t ht hpend => ?_) hholds
      exact absurd (mem_union_iff.2 (.inl ht)) hpend
    have hsent : (((c.markPending r'.types).release r').sendAll (r.members.filter fun i => i ∈ c.streams)
        (.unlock r'.seq r'.types)).Sound seen T := by
      refine hreleased.sendAll ?_ ?_ fun t _ d d' hh hd => hd.kept hh (by simp [Order.unlock])
      · exact fun r₀ hr₀ heq => hother r₀ (hrel ▸ hr₀) (hseq.symm.trans heq)
      · intro r₀ hr₀ t ht i _
        obtain ⟨hold, hne⟩ := mem_filter.1 hr₀
        refine h.wf.ignores_unlock hr (fun hin => ?_) i
        exact absurd (h.wf.ledger.disjoint hold hr ht hin) (by simpa using hne)
    rw [hrel, ← hseq, ← htypes]
    exact hsent

theorem Inv.setStore {i : Nat} {host : ActorHost} (hi : i ∈ c.streams) (ha : c.store.Agrees i host) :
    ({ c with store := (c.store.set i host).2 }.markPending (c.store.set i host).1).Inv seen := by
  obtain ⟨T, hT⟩ := h.sound
  have hwf := h.wf.setStore hi ha
  refine ⟨hwf.markPending _, T, ?_⟩
  exact hT.setStore h.wf.consistent hwf.consistent fun t ht => Store.hosted_set c.store i host ht

theorem Inv.sendSnapshot (i : Nat) : (c.sendSnapshot ranges i).1.Inv seen := by
  obtain ⟨T, hT⟩ := h.sound
  refine ⟨?_, T, hT.sendSnapshot h.wf ranges i⟩
  unfold Connections.sendSnapshot
  split
  · exact h.wf
  · rename_i hi
    -- no round has the snapshot's number
    have hnew : ∀ r ∈ c.rounds, c.seq + 1 ≠ r.seq := fun r hr heq => by
      have := h.wf.round_seq r hr
      omega
    have hlt : ∀ j ∈ [i], j < c.streamIDx := fun j hj => h.wf.streams_lt j (by simpa [mem_singleton.1 hj] using hi)
    have hnext : WellFormed { c with seq := c.seq + 1, oneshots := (c.seq + 1, i) :: c.oneshots } :=
      { h.wf.nextSeq with }
    refine ((hnext.sendAll hlt le_rfl ?_).sendAll hlt le_rfl ?_).sendAll hlt le_rfl ?_
    all_goals exact fun r hr heq => absurd heq (hnew r hr)

/-! ## Events -/

theorem Inv.handleAdd {initial : ActorHost}
    (ha : c.store.Agrees c.streamIDx initial) : (c.handleAdd ranges initial).Inv seen := by
  obtain ⟨T, hT⟩ := h.sound
  have hadd : c.addStream.Inv seen := ⟨h.wf.addStream, T, hT.addStream h.wf⟩
  exact (((hadd.setStore (by simp [Connections.addStream]) ha).sendSnapshot ranges c.streamIDx).markPending _).maybeDisseminate

theorem Inv.handleReportedTypes {i : Nat} {host : ActorHost} (ha : c.store.Agrees i host) :
    (c.handleReportedTypes i host).Inv seen := by
  unfold Connections.handleReportedTypes
  split
  · exact h
  · rename_i hi
    exact (h.setStore (not_not.1 hi) ha).maybeDisseminate

theorem Inv.handleAck {i q : Nat} {o : Order} {ack : Ack}
    (hq : (c.orders i)[q]? = some o) (hlt : q < seen i) (hack : ack = ⟨o.op, o.seq⟩) :
    (c.handleAck ranges i ack).Inv seen := by
  obtain ⟨T, hT⟩ := h.sound
  unfold Connections.handleAck
  split
  · exact h
  · split
    · split
      · exact ⟨{ h.wf with }, T, { hT with }⟩
      · exact h
    · split
      · exact h
      · rename_i r hround
        obtain ⟨hr, hseq⟩ := mem_of_round hround
        split
        · exact h
        · split
          · exact h
          · rename_i hmem hphase
            rw [not_not] at hmem hphase
            subst hack
            have hset : (c.setRound { r with acked := r.acked.insert i }).WellFormed := by
              obtain ⟨hsub, hnd⟩ := h.wf.acked r hr
              refine h.wf.setRound hr rfl rfl le_rfl (h.wf.members r hr) ⟨?_, hnd.insert⟩
              intro j hj
              rcases mem_insert_iff.1 hj with rfl | hold
              · exact hmem
              · exact hsub hold
            have hinv : (c.setRound { r with acked := r.acked.insert i }).Inv seen :=
              ⟨hset, T, hT.ack h.wf hr hq hlt ⟨hphase, hseq.symm⟩⟩
            exact hinv.advanceRounds ranges _

theorem Inv.handleCloseStream (i : Nat) : (c.handleCloseStream ranges i).Inv seen :=
  ((h.removeStream i).advanceRounds ranges _).maybeDisseminate

theorem Inv.handleTimeout (seq : Nat) : (c.handleTimeout ranges seq).Inv seen := by
  unfold Connections.handleTimeout
  split
  · exact h
  · rename_i r hround
    obtain ⟨r', hr', hw⟩ :=
      h.wf.ledger.removeStreams_round (r.members.filter fun i => i ∉ r.acked) (mem_of_round hround).1
    refine (((h.removeStreams _).abortRound hr' hw.seq hw.types fun i hi => ?_).advanceRounds ranges _).maybeDisseminate
    -- a member that is left acknowledged the phase
    obtain ⟨hmem, hnot⟩ := hw.members i hi
    refine hw.acked i hi ?_
    by_contra hna
    exact hnot (mem_filter.2 ⟨hmem, by simpa using hna⟩)

theorem Inv.handleCoalesceFire : c.handleCoalesceFire.Inv seen := by
  obtain ⟨T, hT⟩ := h.sound
  have htimer : Inv { c with coalesceTimer := false } seen := ⟨{ h.wf with }, T, { hT with }⟩
  exact htimer.maybeDisseminate

theorem Inv.deliver (i : Nat) : c.Inv (Function.update seen i (min (seen i + 1) (c.orders i).length)) := by
  obtain ⟨T, hT⟩ := h.sound
  have hnext : ∀ j, seen j ≤ Function.update seen i (min (seen i + 1) (c.orders i).length) j ∧
      Function.update seen i (min (seen i + 1) (c.orders i).length) j ≤ (c.orders j).length := by
    intro j
    have hle := hT.seen_le j
    by_cases hj : j = i
    · subst hj
      rw [Function.update_self]
      omega
    · rw [Function.update_of_ne hj]
      exact ⟨le_rfl, hle⟩
  exact ⟨h.wf, T, { hT with
    seen_le := fun j => (hnext j).2
    tracks := fun j hj t ho hh => (hT.tracks j hj t ho hh).later (hnext j).1 }⟩

end Connections

/-! ## Agreement -/

namespace Namespace

theorem inv_step {n n' : Namespace} (h : n.server.Inv n.seen) (hs : n.Step n') : n'.server.Inv n'.seen := by
  obtain ⟨ranges, e, hok, rfl⟩ := hs
  cases e with
  | add initial => exact h.handleAdd ranges hok
  | report i host => exact h.handleReportedTypes hok
  | close i => exact h.handleCloseStream ranges i
  | ack i ack =>
    obtain ⟨q, o, hq, hlt, hack⟩ := hok
    exact h.handleAck ranges hq hlt (Disseminator.handleOrderV2_ack hack)
  | timeout seq => exact h.handleTimeout ranges seq
  | coalesceFire => exact h.handleCoalesceFire
  | deliver i => exact h.deliver i

/-- What allowed events lead to. -/
def Reached : Namespace → Prop := Lib.Runs.Reachable (fun n => ∃ coalesceWindow, n = .new coalesceWindow) Step

theorem Reached.inv {n : Namespace} (h : n.Reached) : n.server.Inv n.seen := by
  refine h.invariant (fun n => n.server.Inv n.seen) ?_ fun n n' hn hs => inv_step hn hs
  rintro _ ⟨coalesceWindow, rfl⟩
  exact Connections.inv_new coalesceWindow

/-- A connected sidecar that may route by a type's table has the one all streams go by. -/
theorem table_of_sound {n : Namespace} {T : String → Table} (hwf : n.server.WellFormed) (hT : n.server.Sound n.seen T)
    {i : Nat} (hi : n.Connected i) {t : String} (ht : t ∉ (n.sidecar i).inflight.blockedTypes) {table : Table}
    (htable : (n.sidecar i).inflight.v2Entries t = some table) : table.Same (T t) := by
  obtain ⟨hmem, hopen⟩ := hi
  have hle := hT.seen_le i
  -- the stream is open, the type has a table and is not blocked
  have hclosed : ¬ (n.sidecar i).closed.isSome := by simp [hopen]
  have hholds : (n.sidecar i).Holds t (T t) → table.Same (T t) := fun h => h.resolve_left hclosed table htable
  have hblocks : ¬ (n.sidecar i).Blocks t := fun h => ht (h.resolve_left hclosed)
  have hlacks : ¬ (n.sidecar i).Lacks t := fun h => by
    have hnone := h.resolve_left hclosed
    rw [htable] at hnone
    cases hnone
  obtain ⟨o, hh⟩ := hwf.holder t
  have hin := hT.tracks i hmem t o hh
  cases o with
  | none => exact hholds (Receiver.Ahead.now hin hle)
  | some r =>
    by_cases him : i ∈ r.members
    · have hbefore := ((tracks_of_mem him).1 hin).before.now hle
      cases hphase : r.phase with
      | update => rw [hphase] at hbefore; exact absurd hbefore hblocks
      | lock | unlock => rw [hphase] at hbefore; exact hholds hbefore
    · exact absurd (((tracks_of_not_mem him).1 hin).now hle) hlacks

/-- Two connected sidecars that are not locked on a type and both have a table for it have the
same one. -/
theorem sidecars_agree {n : Namespace} (h : n.Reached) {i j : Nat} (hi : n.Connected i) (hj : n.Connected j)
    {t : String} (hti : t ∉ (n.sidecar i).inflight.blockedTypes) (htj : t ∉ (n.sidecar j).inflight.blockedTypes)
    {a b : Table} (ha : (n.sidecar i).inflight.v2Entries t = some a) (hb : (n.sidecar j).inflight.v2Entries t = some b) :
    a.Same b := by
  obtain ⟨hwf, T, hT⟩ := h.inv
  exact (table_of_sound hwf hT hi hti ha).trans (table_of_sound hwf hT hj htj hb).symm

/-! ## A run -/

/-- Handle events one after the other, ranging over maps in the order they are listed. -/
def run (n : Namespace) (events : List Event) : Namespace := events.foldl (handle .inOrder) n

/-- Each event is allowed where it comes. -/
def AllowedRun (n : Namespace) : List Event → Prop
  | [] => True
  | e :: events => n.Allowed e ∧ (n.handle .inOrder e).AllowedRun events

theorem Reached.run {n : Namespace} {events : List Event} (h : n.Reached) (hok : n.AllowedRun events) :
    (n.run events).Reached := by
  induction events generalizing n with
  | nil => exact h
  | cons e events ih => exact ih (h.step ⟨.inOrder, e, hok.1, rfl⟩) hok.2

/-- One stream reports a type and gets through the round for it, then another joins. -/
def joinEvents : List Event :=
  [.add ⟨"10.0.0.1:3500", "app", ["t"]⟩, .deliver 0, .deliver 0, .deliver 0, .deliver 0, .ack 0 ⟨.lock, 2⟩,
   .deliver 0, .ack 0 ⟨.update, 2⟩, .deliver 0, .ack 0 ⟨.unlock, 2⟩, .add ⟨"10.0.0.2:3500", "other", []⟩,
   .deliver 1, .deliver 1, .deliver 1]

theorem joinEvents_reached : ((new 0).run joinEvents).Reached := by
  refine Reached.run (.start ⟨0, rfl⟩) ?_
  have hacked : ∀ {n : Namespace} {i : Nat} {a : Ack} (q : Nat) (o : Order), (n.server.orders i)[q]? = some o →
      q < n.seen i → ((SchedulerPlacement.sidecar.after (n.server.orders i) q).handleOrderV2 o).2 = some a →
      n.Allowed (.ack i a) := fun q o ho hq ha => ⟨q, o, ho, hq, ha⟩
  refine ⟨by simp [Allowed, Store.Agrees, new, Connections.new, Store.new], trivial, trivial, trivial, trivial,
    hacked 3 _ rfl (by decide) rfl, trivial, hacked 4 _ rfl (by decide) rfl, trivial,
    hacked 5 _ rfl (by decide) rfl, ?_, trivial, trivial, trivial, trivial⟩
  intro e he _ haddr
  have heq : e ∈ [(⟨0, "10.0.0.1:3500", "app", ["t"]⟩ : HostEntry)] := he
  rw [mem_singleton.1 heq] at haddr
  simp at haddr

/-- The newcomer's snapshot is the table the other stream got by its round. -/
theorem sidecars_agree_join :
    (((new 0).run joinEvents).sidecar 0).inflight.v2Entries "t" = some (AList.insert "10.0.0.1:3500" "app" ∅) ∧
    (((new 0).run joinEvents).sidecar 1).inflight.v2Entries "t" = some (AList.insert "10.0.0.1:3500" "app" ∅) ∧
      Table.Same (AList.insert "10.0.0.1:3500" "app" ∅) (AList.insert "10.0.0.1:3500" "app" ∅) :=
  ⟨rfl, rfl, sidecars_agree (j := 1) joinEvents_reached ⟨by decide, rfl⟩ ⟨by decide, rfl⟩ (t := "t")
    (i := 0) (by decide) (by decide) rfl rfl⟩

end Namespace

end Dapr.SchedulerPlacement
