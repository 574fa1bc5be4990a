import Dapr.SchedulerPlacement.Connections
/-!
# The controller's books

What is true of the controller's own records whatever the sidecars do: rounds hold disjoint
types, their members are connected, the numbers of orders grow, and the orders of a round so
far are those of its phases so far.
-/

namespace Dapr.SchedulerPlacement

open Lib.Runs List

/-- The place of an operation in a round. -/
def Operation.index : Operation → Nat
  | .lock => 0
  | .update => 1
  | .unlock => 2

/-- A round without some of its members. -/
structure Round.Without (r : Round) (gone : List Nat) (r' : Round) : Prop where
  seq : r'.seq = r.seq
  types : r'.types = r.types
  phase : r'.phase = r.phase
  members : ∀ i ∈ r'.members, i ∈ r.members ∧ i ∉ gone
  acked : ∀ i ∈ r'.members, i ∈ r.acked → i ∈ r'.acked

namespace Connections

/-- The rounds have numbers of their own and connected members, and hold disjoint types. -/
structure Ledger (c : Connections) : Prop where
  round_seq : ∀ r ∈ c.rounds, r.seq ≤ c.seq
  distinct : (c.rounds.map Round.seq).Nodup
  locked : ∀ t seq, c.lockedTypes t = some seq ↔ ∃ r ∈ c.rounds, r.seq = seq ∧ t ∈ r.types
  members : ∀ r ∈ c.rounds, r.members ⊆ c.streams
  acked : ∀ r ∈ c.rounds, r.acked ⊆ r.members ∧ r.acked.Nodup

/-- The books of the rounds: their types are locked for them alone, and orders were sent in their phases. -/
structure WellFormed (c : Connections) : Prop where
  streams_lt : ∀ i ∈ c.streams, i < c.streamIDx
  unsent : ∀ i, c.streamIDx ≤ i → c.orders i = []
  hosts : ∀ e ∈ c.store.hosts.entries, e.1 ∈ c.streams
  consistent : Consistent c.store.hosts.entries
  order_seq : ∀ i, ∀ o ∈ c.orders i, o.seq ≤ c.seq
  round_seq : ∀ r ∈ c.rounds, r.seq ≤ c.seq
  distinct : (c.rounds.map Round.seq).Nodup
  locked : ∀ t seq, c.lockedTypes t = some seq ↔ ∃ r ∈ c.rounds, r.seq = seq ∧ t ∈ r.types
  members : ∀ r ∈ c.rounds, r.members ⊆ c.streams
  acked : ∀ r ∈ c.rounds, r.acked ⊆ r.members ∧ r.acked.Nodup
  sent : ∀ r ∈ c.rounds, ∀ i, ∀ o ∈ c.orders i, o.seq = r.seq →
    (∀ t, o.Concerns t → t ∈ r.types) ∧ o.op.index ≤ r.phase.index

theorem wellFormed_new (coalesceWindow : Int) : WellFormed (.new coalesceWindow) where
  streams_lt := nofun
  unsent := fun i _ => rfl
  hosts := nofun
  consistent := nofun
  order_seq := nofun
  round_seq := nofun
  distinct := nodup_nil
  locked := fun t seq => by simp [new]
  members := nofun
  acked := nofun
  sent := nofun

variable {c : Connections} {r r' : Round}

theorem WellFormed.ledger (h : c.WellFormed) : c.Ledger := { h with }

theorem mem_of_round {seq : Nat} (h : c.round seq = some r) : r ∈ c.rounds ∧ r.seq = seq :=
  ⟨mem_of_find?_eq_some h, by simpa using find?_some h⟩

variable {t : String} {o : Order} {r₀ : Round} {types : List String} {i : Nat}

/-- Two rounds never hold the same type. -/
theorem Ledger.disjoint (h : c.Ledger) (hr : r ∈ c.rounds) (hr' : r' ∈ c.rounds) (ht : t ∈ r.types)
    (ht' : t ∈ r'.types) : r.seq = r'.seq := by
  have h1 := (h.locked t r.seq).2 ⟨r, hr, rfl, ht⟩
  have h2 := (h.locked t r'.seq).2 ⟨r', hr', rfl, ht'⟩
  exact Option.some.inj (h1.symm.trans h2)

theorem Ledger.eq_of_seq (h : c.Ledger) (hr : r ∈ c.rounds) (hr' : r' ∈ c.rounds) (hseq : r.seq = r'.seq) :
    r = r' :=
  inj_on_of_nodup_map h.distinct hr hr' hseq

theorem Ledger.locked_of_mem (h : c.Ledger) (hr : r ∈ c.rounds) (ht : t ∈ r.types) : c.lockedTypes t = some r.seq :=
  (h.locked t r.seq).2 ⟨r, hr, rfl, ht⟩

theorem Ledger.not_mem_of_free (h : c.Ledger) (hfree : c.lockedTypes t = none) (hr : r ∈ c.rounds) : t ∉ r.types := by
  intro ht
  rw [h.locked_of_mem hr ht] at hfree
  cases hfree

/-- With as many acks as members, every member has acknowledged. -/
theorem Ledger.all_acked (h : c.Ledger) (hr : r ∈ c.rounds) (hlen : ¬ r.acked.length < r.members.length) :
    ∀ i ∈ r.members, i ∈ r.acked := by
  obtain ⟨hsub, hnd⟩ := h.acked r hr
  have hperm := (subperm_of_subset hnd hsub).perm_of_length_le (Nat.le_of_not_lt hlen)
  exact fun i hi => hperm.mem_iff.2 hi

/-! ## What each change keeps -/

theorem WellFormed.markPending (h : c.WellFormed) (types : List String) : (c.markPending types).WellFormed :=
  { h with }

theorem WellFormed.sendAll (h : c.WellFormed) {streams : List Nat} (hs : ∀ i ∈ streams, i < c.streamIDx)
    (hseq : o.seq ≤ c.seq)
    (ho : ∀ r ∈ c.rounds, o.seq = r.seq → (∀ t, o.Concerns t → t ∈ r.types) ∧ o.op.index ≤ r.phase.index) :
    (c.sendAll streams o).WellFormed := by
  -- an order sent before or this one
  have hmem : ∀ i, ∀ o' ∈ (c.sendAll streams o).orders i, o' ∈ c.orders i ∨ o' = o := by
    intro i o' ho'
    simp only [Connections.sendAll] at ho'
    split at ho'
    · simpa using ho'
    · exact .inl ho'
  refine { h with unsent := ?_, order_seq := ?_, sent := ?_ }
  · intro i hi
    have hnot : i ∉ streams := fun hin => absurd (hs i hin) (Nat.not_lt.2 hi)
    simp only [Connections.sendAll, hnot]
    exact h.unsent i hi
  · intro i o' ho'
    rcases hmem i o' ho' with hold | rfl
    · exact h.order_seq i o' hold
    · exact hseq
  · intro r hr i o' ho' heq
    rcases hmem i o' ho' with hold | rfl
    · exact h.sent r hr i o' hold heq
    · exact ho r hr heq

theorem mem_setRound (h : r₀ ∈ (c.setRound r).rounds) : r₀ ∈ c.rounds ∧ r₀.seq ≠ r.seq ∨ r₀ = r := by
  obtain ⟨r₁, hr₁, heq⟩ := mem_map.1 h
  split at heq
  · exact .inr heq.symm
  · rename_i hne
    exact .inl (heq ▸ ⟨hr₁, hne⟩)

theorem mem_setRound_of_ne (h : r₀ ∈ c.rounds) (hne : r₀.seq ≠ r.seq) : r₀ ∈ (c.setRound r).rounds :=
  mem_map.2 ⟨r₀, h, if_neg hne⟩

theorem mem_setRound_self (h : r ∈ c.rounds) (hseq : r.seq = r'.seq) : r' ∈ (c.setRound r').rounds :=
  mem_map.2 ⟨r, h, if_pos hseq⟩

theorem forall_setRound {P : Round → Prop} (h : ∀ r ∈ c.rounds, P r) (hr : P r) : ∀ r₀ ∈ (c.setRound r).rounds, P r₀ := by
  intro r₀ hr₀
  rcases mem_setRound hr₀ with ⟨hold, -⟩ | rfl
  · exact h r₀ hold
  · exact hr

theorem Ledger.setRound (h : c.Ledger) (hr : r ∈ c.rounds) (hseq : r.seq = r'.seq) (htypes : r.types = r'.types)
    (hmembers : r'.members ⊆ c.streams) (hacked : r'.acked ⊆ r'.members ∧ r'.acked.Nodup) : (c.setRound r').Ledger := by
  refine ⟨?_, ?_, ?_, ?_, ?_⟩
  · exact forall_setRound h.round_seq (hseq ▸ h.round_seq r hr)
  · have hsame : (c.setRound r').rounds.map Round.seq = c.rounds.map Round.seq := by
      simp only [Connections.setRound, map_map]
      refine map_congr_left fun r₀ _ => ?_
      simp only [Function.comp_apply]
      split
      · rename_i heq
        exact heq.symm
      · rfl
    rw [hsame]
    exact h.distinct
  · intro t seq
    refine (h.locked t seq).trans ⟨?_, ?_⟩
    · rintro ⟨r₀, hr₀, hs, ht⟩
      by_cases heq : r₀.seq = r'.seq
      · have : r₀ = r := h.eq_of_seq hr₀ hr (heq.trans hseq.symm)
        subst this
        exact ⟨r', mem_setRound_self hr hseq, hseq ▸ hs, htypes ▸ ht⟩
      · exact ⟨r₀, mem_setRound_of_ne hr₀ heq, hs, ht⟩
    · rintro ⟨r₀, hr₀, hs, ht⟩
      rcases mem_setRound hr₀ with ⟨hold, -⟩ | rfl
      · exact ⟨r₀, hold, hs, ht⟩
      · exact ⟨r, hr, hseq.trans hs, htypes ▸ ht⟩
  · exact forall_setRound h.members hmembers
  · exact forall_setRound h.acked hacked

/-- The phase of a round does not go back. -/
theorem WellFormed.setRound (h : c.WellFormed) (hr : r ∈ c.rounds) (hseq : r.seq = r'.seq)
    (htypes : r.types = r'.types) (hphase : r.phase.index ≤ r'.phase.index) (hmembers : r'.members ⊆ c.streams)
    (hacked : r'.acked ⊆ r'.members ∧ r'.acked.Nodup) : (c.setRound r').WellFormed := by
  refine { h.ledger.setRound hr hseq htypes hmembers hacked, h with
    sent := forall_setRound h.sent fun i o ho heq => ?_ }
  obtain ⟨hc, hi⟩ := h.sent r hr i o ho (heq.trans hseq.symm)
  exact ⟨fun t ht => htypes ▸ hc t ht, hi.trans hphase⟩

theorem WellFormed.advance (h : c.WellFormed) (hr : r ∈ c.rounds) {phase : Operation}
    (hphase : r.phase.index ≤ phase.index) (hseq : o.seq = r.seq) (hop : o.op = phase)
    (hc : ∀ t, o.Concerns t → t ∈ r.types) :
    ((c.setRound { r with phase := phase, acked := [] }).sendAll r.members o).WellFormed := by
  have hset : (c.setRound { r with phase := phase, acked := [] }).WellFormed :=
    h.setRound hr rfl rfl hphase (h.members r hr) ⟨nil_subset _, nodup_nil⟩
  refine hset.sendAll (fun i hi => h.streams_lt i (h.members r hr hi)) (hseq ▸ h.round_seq r hr) fun r₀ hr₀ heq => ?_
  rcases mem_setRound hr₀ with ⟨-, hne⟩ | rfl
  · exact absurd (heq.symm.trans hseq) hne
  · exact ⟨hc, hop ▸ le_rfl⟩

theorem Ledger.openRound (h : c.Ledger) (hfree : ∀ t ∈ types, c.lockedTypes t = none) : (c.openRound types).Ledger := by
  refine ⟨?_, ?_, ?_, ?_, ?_⟩
  · exact forall_mem_cons.2 ⟨le_rfl, fun r hr => Nat.le_succ_of_le (h.round_seq r hr)⟩
  · refine nodup_cons.2 ⟨?_, h.distinct⟩
    intro hin
    obtain ⟨r, hr, heq⟩ := mem_map.1 hin
    have := h.round_seq r hr
    simp only at heq
    omega
  · intro t seq
    simp only [Connections.openRound]
    by_cases ht : t ∈ types
    · simp only [ht, if_true, Option.some_inj, mem_cons]
      constructor
      · rintro rfl
        exact ⟨_, .inl rfl, rfl, ht⟩
      · rintro ⟨r, rfl | hr, hseq, hin⟩
        · exact hseq
        · exact absurd hin (h.not_mem_of_free (hfree t ht) hr)
    · simp only [ht, mem_cons]
      refine (h.locked t seq).trans ⟨fun ⟨r, hr, hs⟩ => ⟨r, .inr hr, hs⟩, ?_⟩
      rintro ⟨r, rfl | hr, hseq, hin⟩
      · exact absurd hin ht
      · exact ⟨r, hr, hseq, hin⟩
  · exact forall_mem_cons.2 ⟨List.Subset.refl _, h.members⟩
  · exact forall_mem_cons.2 ⟨⟨nil_subset _, nodup_nil⟩, h.acked⟩

theorem WellFormed.openRound (h : c.WellFormed) (hfree : ∀ t ∈ types, c.lockedTypes t = none) :
    (c.openRound types).WellFormed := by
  refine { h.ledger.openRound hfree, h with
    order_seq := fun i o ho => Nat.le_succ_of_le (h.order_seq i o ho)
    sent := forall_mem_cons.2 ⟨fun i o ho heq => ?_, h.sent⟩ }
  have := h.order_seq i o ho
  simp only at heq
  omega

theorem WellFormed.startRound (h : c.WellFormed) (hfree : ∀ t ∈ types, c.lockedTypes t = none) :
    (c.startRound types).WellFormed := by
  refine (h.openRound hfree).sendAll h.streams_lt le_rfl fun r hr heq => ?_
  rcases mem_cons.1 hr with rfl | hold
  · refine ⟨fun t ht => ?_, le_rfl⟩
    simpa [Order.Concerns, Order.lock] using ht
  · have := h.round_seq r hold
    simp only [Order.lock] at heq
    omega

theorem Ledger.release (h : c.Ledger) (hr : r ∈ c.rounds) : (c.release r).Ledger := by
  have hsub : ∀ r₀ ∈ (c.release r).rounds, r₀ ∈ c.rounds := fun r₀ hr₀ => (mem_filter.1 hr₀).1
  refine ⟨fun r₀ hr₀ => h.round_seq r₀ (hsub r₀ hr₀), h.distinct.sublist (filter_sublist.map _), ?_,
    fun r₀ hr₀ => h.members r₀ (hsub r₀ hr₀), fun r₀ hr₀ => h.acked r₀ (hsub r₀ hr₀)⟩
  intro t seq
  have hlocked := h.locked t
  simp only [Connections.release, mem_filter, decide_eq_true_eq]
  by_cases ht : t ∈ r.types
  · -- the round itself was the only one with this type
    have hself := h.locked_of_mem hr ht
    rw [if_pos ⟨ht, hself⟩]
    constructor
    · intro hnone
      cases hnone
    · rintro ⟨r₀, ⟨hr₀, hne⟩, -, ht₀⟩
      exact absurd (h.disjoint hr₀ hr ht₀ ht) hne
  · rw [if_neg fun hand => ht hand.1, hlocked seq]
    constructor
    · rintro ⟨r₀, hr₀, hs, ht₀⟩
      refine ⟨r₀, ⟨hr₀, fun heq => ht ?_⟩, hs, ht₀⟩
      exact h.eq_of_seq hr₀ hr heq ▸ ht₀
    · rintro ⟨r₀, ⟨hr₀, -⟩, hs, ht₀⟩
      exact ⟨r₀, hr₀, hs, ht₀⟩

theorem WellFormed.release (h : c.WellFormed) (hr : r ∈ c.rounds) : (c.release r).WellFormed :=
  { h.ledger.release hr, h with sent := fun r₀ hr₀ => h.sent r₀ (mem_filter.1 hr₀).1 }

theorem mem_dropStream (h : r ∈ (c.dropStream i).rounds) : ∃ r₀ ∈ c.rounds, r = r₀.drop i :=
  (mem_map.1 h).imp fun _ ⟨hr₀, heq⟩ => ⟨hr₀, heq.symm⟩

theorem Ledger.dropStream (h : c.Ledger) (i : Nat) : (c.dropStream i).Ledger := by
  refine ⟨?_, ?_, ?_, ?_, ?_⟩
  · intro r hr
    obtain ⟨r₀, hr₀, rfl⟩ := mem_dropStream hr
    exact h.round_seq r₀ hr₀
  · have hsame : (c.dropStream i).rounds.map Round.seq = c.rounds.map Round.seq := by
      simp only [Connections.dropStream, map_map]
      rfl
    rw [hsame]
    exact h.distinct
  · intro t seq
    refine (h.locked t seq).trans ⟨?_, ?_⟩
    · rintro ⟨r₀, hr₀, hs⟩
      exact ⟨r₀.drop i, mem_map_of_mem hr₀, hs⟩
    · rintro ⟨r, hr, hs⟩
      obtain ⟨r₀, hr₀, rfl⟩ := mem_dropStream hr
      exact ⟨r₀, hr₀, hs⟩
  · intro r hr j hj
    obtain ⟨r₀, hr₀, rfl⟩ := mem_dropStream hr
    obtain ⟨hmem, hne⟩ := mem_filter.1 hj
    exact mem_filter.2 ⟨h.members r₀ hr₀ hmem, hne⟩
  · intro r hr
    obtain ⟨r₀, hr₀, rfl⟩ := mem_dropStream hr
    obtain ⟨hsub, hnd⟩ := h.acked r₀ hr₀
    refine ⟨fun j hj => ?_, hnd.filter _⟩
    obtain ⟨hmem, hne⟩ := mem_filter.1 hj
    exact mem_filter.2 ⟨hsub hmem, hne⟩

theorem WellFormed.dropStream (h : c.WellFormed) (i : Nat) : (c.dropStream i).WellFormed := by
  refine { h.ledger.dropStream i, h with
    streams_lt := fun j hj => h.streams_lt j (mem_filter.1 hj).1
    hosts := ?_, consistent := ?_, sent := ?_ }
  · intro e he
    obtain ⟨hold, hne⟩ := Store.mem_of_mem_delete he
    exact mem_filter.2 ⟨h.hosts e hold, by simpa using hne⟩
  · intro e he e' he'
    exact h.consistent e (Store.mem_of_mem_delete he).1 e' (Store.mem_of_mem_delete he').1
  · intro r hr
    obtain ⟨r₀, hr₀, rfl⟩ := mem_dropStream hr
    exact h.sent r₀ hr₀

theorem WellFormed.setStore (h : c.WellFormed) {host : ActorHost} (hi : i ∈ c.streams) (ha : c.store.Agrees i host) :
    WellFormed { c with store := (c.store.set i host).2 } := by
  refine { h with hosts := ?_, consistent := Store.consistent_set h.consistent ha }
  intro e he
  rcases Store.mem_of_mem_set he with hold | heq
  · exact h.hosts e hold
  · exact heq ▸ hi

/-- The next stream connects. -/
def addStream (c : Connections) : Connections :=
  { c with streamIDx := c.streamIDx + 1, streams := c.streams ++ [c.streamIDx] }

theorem Ledger.addStream (h : c.Ledger) : c.addStream.Ledger :=
  { h with members := fun r hr _ hi => mem_append_left _ (h.members r hr hi) }

theorem streams_lt_addStream (h : ∀ i ∈ c.streams, i < c.streamIDx) :
    ∀ i ∈ c.streams ++ [c.streamIDx], i < c.streamIDx + 1 :=
  forall_mem_concat (fun i hi => Nat.lt_succ_of_lt (h i hi)) (Nat.lt_succ_self _)

theorem WellFormed.addStream (h : c.WellFormed) : c.addStream.WellFormed :=
  { h.ledger.addStream, h with
    streams_lt := streams_lt_addStream h.streams_lt
    unsent := fun _ hi => h.unsent _ (Nat.le_of_succ_le hi)
    hosts := fun e he => mem_append_left _ (h.hosts e he) }

theorem Ledger.removeStream_round (h : c.Ledger) (hr : r ∈ c.rounds) (i : Nat) :
    ∃ r' ∈ (c.removeStream i).1.rounds, r.Without [i] r' := by
  unfold Connections.removeStream
  split
  · rename_i hnot
    refine ⟨r, hr, rfl, rfl, rfl, fun j hj => ⟨hj, ?_⟩, fun _ _ ha => ha⟩
    rw [mem_singleton]
    rintro rfl
    exact hnot (h.members r hr hj)
  · have hdrop : ∃ r' ∈ (c.dropStream i).rounds, r.Without [i] r' := by
      refine ⟨r.drop i, mem_map_of_mem hr, rfl, rfl, rfl, fun j hj => ?_, fun j hj ha => ?_⟩
      · simpa [Round.drop] using hj
      · exact mem_filter.2 ⟨ha, (mem_filter.1 hj).2⟩
    dsimp only
    split <;> exact hdrop

theorem Ledger.removeStream (h : c.Ledger) (i : Nat) : (c.removeStream i).1.Ledger := by
  unfold Connections.removeStream
  split
  · exact h
  · dsimp only
    split
    · exact { h.dropStream i with }
    · exact h.dropStream i

/-- A round loses the streams that are removed, and nothing else. -/
theorem Ledger.removeStreams_round (h : c.Ledger) (gone : List Nat) (hr : r ∈ c.rounds) :
    ∃ r' ∈ (c.removeStreams gone).1.rounds, r.Without gone r' := by
  induction gone generalizing c r with
  | nil => exact ⟨r, hr, rfl, rfl, rfl, fun i hi => ⟨hi, by simp⟩, fun _ _ ha => ha⟩
  | cons i gone ih =>
    obtain ⟨r₁, hr₁, hw₁⟩ := h.removeStream_round hr i
    obtain ⟨r₂, hr₂, hw₂⟩ := ih (h.removeStream i) hr₁
    refine ⟨r₂, hr₂, hw₂.seq.trans hw₁.seq, hw₂.types.trans hw₁.types, hw₂.phase.trans hw₁.phase, ?_, ?_⟩
    · intro j hj
      obtain ⟨hmem₁, hnot₂⟩ := hw₂.members j hj
      obtain ⟨hmem, hnot₁⟩ := hw₁.members j hmem₁
      refine ⟨hmem, ?_⟩
      rw [mem_cons, not_or]
      exact ⟨by simpa using hnot₁, hnot₂⟩
    · exact fun j hj ha => hw₂.acked j hj (hw₁.acked j (hw₂.members j hj).1 ha)

theorem Ledger.nextSeq (h : c.Ledger) : Ledger { c with seq := c.seq + 1 } :=
  { h with round_seq := fun r hr => Nat.le_succ_of_le (h.round_seq r hr) }

theorem WellFormed.nextSeq (h : c.WellFormed) : WellFormed { c with seq := c.seq + 1 } :=
  { h.ledger.nextSeq, h with order_seq := fun i o ho => Nat.le_succ_of_le (h.order_seq i o ho) }

end Connections

end Dapr.SchedulerPlacement
