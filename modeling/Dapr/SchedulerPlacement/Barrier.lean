import Dapr.SchedulerPlacement.Knowledge
import Dapr.SchedulerPlacement.Rounds
/-!
# The barrier of a round

What is known of each stream, for all streams and types together, and how each thing the
controller does keeps it: starting a round, its phases, acks, dropping a round, streams that
join and leave.
-/

namespace Dapr.SchedulerPlacement

open Lib.Delivery Lib.Runs List

namespace Connections

/-- The round that holds a type, if any. -/
def Holder (c : Connections) (t : String) : Option Round → Prop
  | none => c.lockedTypes t = none
  | some r => r ∈ c.rounds ∧ t ∈ r.types

/-- Each type has a table that the streams go by, and the store has that table too as long as no
change is pending and no round is about to replace it. -/
structure Sound (c : Connections) (seen : Nat → Nat) (T : String → Table) : Prop where
  seen_le : ∀ i, seen i ≤ (c.orders i).length
  store : ∀ t, t ∉ c.pendingTypes → (∀ r ∈ c.rounds, t ∈ r.types → r.phase ≠ .lock) →
    (Store.table c.store.hosts.entries t).Same (T t)
  tracks : ∀ i ∈ c.streams, ∀ t h, c.Holder t h → Tracks (T t) t i (seen i) (c.orders i) h

variable {c : Connections} {seen : Nat → Nat} {T : String → Table} {r : Round}

theorem WellFormed.holder (h : c.WellFormed) (t : String) : ∃ o, c.Holder t o := by
  cases hl : c.lockedTypes t with
  | none => exact ⟨none, hl⟩
  | some seq =>
    obtain ⟨r, hr, -, ht⟩ := (h.locked t seq).1 hl
    exact ⟨some r, hr, ht⟩

/-- Without streams there is nothing to know. -/
theorem Sound.of_no_streams (hs : ∀ i, seen i ≤ (c.orders i).length) (hnil : c.streams = []) :
    c.Sound seen (Store.table c.store.hosts.entries) where
  seen_le := hs
  store := fun t _ _ => .refl _
  tracks := fun i hi => by simp [hnil] at hi

theorem Sound.markPending (h : c.Sound seen T) (types : List String) : (c.markPending types).Sound seen T :=
  { h with store := fun t ht => h.store t fun hin => ht (mem_union_iff.2 (.inr hin)) }

/-- The store changes and the types concerned become pending. -/
theorem Sound.setStore (h : c.Sound seen T) {store : Store} {changed : List String}
    (hc : Consistent c.store.hosts.entries) (hc' : Consistent store.hosts.entries)
    (hsame : ∀ t, t ∉ changed → ∀ address appId,
      Hosted store.hosts.entries t address appId ↔ Hosted c.store.hosts.entries t address appId) :
    ({ c with store := store }.markPending changed).Sound seen T := by
  refine { h with store := fun t ht hphase => ?_ }
  have hnot : t ∉ changed ∧ t ∉ c.pendingTypes := by
    rw [← not_or]
    exact fun hor => ht (mem_union_iff.2 hor)
  exact (Store.same_table hc' hc (hsame t hnot.1)).trans (h.store t hnot.2 hphase)

/-! ### Orders -/

variable {streams : List Nat} {i : Nat} {o : Order} {t : String} {types : List String} {T' : String → Table}

theorem orders_sendAll_of_mem (hi : i ∈ streams) (o : Order) :
    (c.sendAll streams o).orders i = c.orders i ++ [o] := if_pos hi

theorem orders_sendAll_of_not_mem (hi : i ∉ streams) (o : Order) :
    (c.sendAll streams o).orders i = c.orders i := if_neg hi

theorem seen_le_sendAll (hs : ∀ i, seen i ≤ (c.orders i).length) (i : Nat) :
    seen i ≤ ((c.sendAll streams o).orders i).length := by
  by_cases hi : i ∈ streams
  · rw [orders_sendAll_of_mem hi, length_append]
    exact Nat.le_add_right_of_le (hs i)
  · rw [orders_sendAll_of_not_mem hi]
    exact hs i

/-- An order that ignores a type, to any streams. -/
theorem tracks_sendAll {T : Table} {h : Option Round} (hT : Tracks T t i (seen i) (c.orders i) h)
    (hs : seen i ≤ (c.orders i).length) (hi : i ∈ streams → o.Ignores (c.orders i) t)
    (hseq : ∀ r, h = some r → o.seq ≠ r.seq) : Tracks T t i (seen i) ((c.sendAll streams o).orders i) h := by
  by_cases hin : i ∈ streams
  · rw [orders_sendAll_of_mem hin]
    exact hT.snoc hs (hi hin) hseq
  · rw [orders_sendAll_of_not_mem hin]
    exact hT

/-- An order outside of any round leaves the types alone that a round holds, and the others
with the table they have. -/
theorem Sound.sendAll (h : c.Sound seen T) (hnew : ∀ r ∈ c.rounds, o.seq ≠ r.seq)
    (hlocked : ∀ r ∈ c.rounds, ∀ t ∈ r.types, ∀ i ∈ streams, o.Ignores (c.orders i) t)
    (hfree : ∀ t, c.lockedTypes t = none → ∀ d d' : Disseminator, d.Handled o d' → d.Holds t (T t) → d'.Holds t (T t)) :
    (c.sendAll streams o).Sound seen T := by
  refine { h with seen_le := seen_le_sendAll h.seen_le, tracks := fun i hi t ho hh => ?_ }
  have hT := h.tracks i hi t ho hh
  cases ho with
  | none =>
    by_cases hin : i ∈ streams
    · rw [orders_sendAll_of_mem hin]
      exact Receiver.Ahead.snoc hT (h.seen_le i) (hfree t hh _ _ (sidecar_handled _ o))
    · rw [orders_sendAll_of_not_mem hin]
      exact hT
  | some r =>
    refine tracks_sendAll hT (h.seen_le i) (hlocked r hh.1 t hh.2 i) ?_
    rintro _ ⟨rfl⟩
    exact hnew r hh.1

theorem ignores_lock (ht : t ∉ types) (seq : Nat) (log : List Order) : (Order.lock seq types).Ignores log t where
  concerns := by simp [Order.Concerns, Order.lock, ht]
  unlocks := fun hop => by simp [Order.lock] at hop

theorem ignores_update (ht : t ∉ types) (seq : Nat) (scope : List String) (versions : List (String × Nat))
    (hosts : List HostEntry) (log : List Order) :
    (Order.update seq scope versions (Store.tables hosts types)).Ignores log t where
  concerns := by
    have hkeys : (Store.tables hosts types).entries.map Prod.fst = types := by simp [Store.tables, Function.comp_def]
    simp [Order.Concerns, Order.update, hkeys, ht]
  unlocks := fun hop => by simp [Order.update] at hop

variable (wf : c.WellFormed)
include wf

/-- The UNLOCK of a round ignores the types of others. -/
theorem WellFormed.ignores_unlock (hr : r ∈ c.rounds) (ht : t ∉ r.types) (i : Nat) :
    (Order.unlock r.seq r.types).Ignores (c.orders i) t where
  concerns := by simp [Order.Concerns, Order.unlock]
  unlocks := fun _ o ho hseq hc => ht ((wf.sent r hr i o ho hseq).1 t hc)

/-! ### Rounds -/

theorem Sound.startRound (h : c.Sound seen T) (hfree : ∀ t ∈ types, c.lockedTypes t = none) :
    (c.startRound types).Sound seen T := by
  refine ⟨seen_le_sendAll h.seen_le, ?_, ?_⟩
  · intro t ht hphase
    have hnot : t ∉ types := fun hin => hphase _ mem_cons_self hin rfl
    refine h.store t (fun hin => ht (mem_filter.2 ⟨hin, by simpa using hnot⟩)) ?_
    exact fun r hr => hphase r (mem_cons_of_mem _ hr)
  · intro i hi t o hh
    have hi : i ∈ c.streams := hi
    unfold Connections.startRound
    cases o with
    | none =>
      have hnone : t ∉ types ∧ c.lockedTypes t = none := by
        by_cases ht : t ∈ types
        · simp [Holder, Connections.startRound, Connections.sendAll, Connections.openRound, ht] at hh
        · simpa [Holder, Connections.startRound, Connections.sendAll, Connections.openRound, ht] using hh
      exact tracks_sendAll (h.tracks i hi t none hnone.2) (h.seen_le i)
        (fun _ => ignores_lock hnone.1 _ _) (by simp)
    | some r =>
      obtain ⟨hr, ht⟩ := hh
      rcases mem_cons.1 hr with rfl | hold
      · have hT : sidecar.Ahead (seen i) (c.orders i) (Disseminator.Holds t (T t)) := h.tracks i hi t none (hfree t ht)
        have hh := sidecar_handled (sidecar.after (c.orders i) (c.orders i).length) (.lock (c.seq + 1) types)
        rw [tracks_of_mem hi, orders_sendAll_of_mem hi]
        refine ⟨hT.snoc (h.seen_le i) fun hd => hd.kept hh (by simp [Order.lock]), ?_, by simp⟩
        refine Receiver.Since.first (fun o ho hof => ?_) (hh.lock_blocks rfl ht)
        -- the number is new
        have hle := wf.order_seq i o ho
        have heq : o.seq = c.seq + 1 := hof.2
        omega
      · have hnot : t ∉ types := fun hin => wf.ledger.not_mem_of_free (hfree t hin) hold ht
        refine tracks_sendAll (h.tracks i hi t (some r) ⟨hold, ht⟩) (h.seen_le i)
          (fun _ => ignores_lock hnot _ _) ?_
        rintro _ ⟨rfl⟩ heq
        have := wf.round_seq r hold
        simp only [Order.lock] at heq
        omega

theorem Sound.advance (h : c.Sound seen T) (hr : r ∈ c.rounds) {r' : Round}
    (hseq : r.seq = r'.seq) (htypes : r.types = r'.types) (hmembers : r'.members = r.members) (hoseq : o.seq = r.seq)
    (hother : ∀ t, t ∉ r.types → ∀ i, o.Ignores (c.orders i) t) (hT' : ∀ t, t ∉ r.types → T' t = T t)
    (hstore : ∀ t ∈ r.types, t ∉ c.pendingTypes → (Store.table c.store.hosts.entries t).Same (T' t))
    (hin : ∀ t ∈ r.types, ∀ i ∈ r.members, InRound (T t) t i (seen i) (c.orders i) r →
      InRound (T' t) t i (seen i) (c.orders i ++ [o]) r') : ((c.setRound r').sendAll r.members o).Sound seen T' := by
  refine ⟨seen_le_sendAll h.seen_le, ?_, ?_⟩
  · intro t ht hphase
    by_cases hmem : t ∈ r.types
    · exact hstore t hmem ht
    · rw [hT' t hmem]
      refine h.store t ht fun r₀ hr₀ ht₀ => hphase r₀ (mem_setRound_of_ne hr₀ fun heq => hmem ?_) ht₀
      exact wf.ledger.eq_of_seq hr₀ hr (heq.trans hseq.symm) ▸ ht₀
  · intro i hi t ho hh
    cases ho with
    | none =>
      have hmem : t ∉ r.types := wf.ledger.not_mem_of_free hh hr
      rw [hT' t hmem]
      exact tracks_sendAll (h.tracks i hi t none hh) (h.seen_le i) (fun _ => hother t hmem i)
        fun r hr => nomatch hr
    | some r₀ =>
      obtain ⟨hr₀, ht⟩ := hh
      rcases mem_setRound hr₀ with ⟨hold, hne⟩ | rfl
      · have hmem : t ∉ r.types := fun hmem => hne ((wf.ledger.disjoint hold hr ht hmem).trans hseq)
        rw [hT' t hmem]
        refine tracks_sendAll (h.tracks i hi t (some r₀) ⟨hold, ht⟩) (h.seen_le i)
          (fun _ => hother t hmem i) ?_
        rintro _ ⟨rfl⟩ heq
        exact hne ((heq.symm.trans hoseq).trans hseq)
      · rw [← htypes] at ht
        have hT := h.tracks i hi t (some r) ⟨hr, ht⟩
        by_cases him : i ∈ r.members
        · rw [tracks_of_mem (hmembers ▸ him), orders_sendAll_of_mem him]
          exact hin t ht i him ((tracks_of_mem him).1 hT)
        · rw [tracks_of_not_mem (hmembers ▸ him), orders_sendAll_of_not_mem him]
          exact (tracks_of_not_mem him).1 hT

/-- The tables that the UPDATE of a round brings. -/
def updated (ranges : Ranges) (c : Connections) (r : Round) (T : String → Table) (t : String) : Table :=
  if t ∈ r.types then Store.table (ranges.hosts r.seq c.store.hosts.entries) t else T t

/-- Once all members are blocked, the round's types go from the store's table. -/
theorem Sound.sendUpdate (h : c.Sound seen T) (ranges : Ranges) (hr : r ∈ c.rounds)
    (hphase : r.phase = .lock) (hall : ∀ i ∈ r.members, i ∈ r.acked) :
    (c.sendUpdate ranges r).Sound seen (c.updated ranges r T) := by
  have hsent : ∀ i, ∀ o ∈ c.orders i, o.seq = r.seq → o.op = .lock := by
    intro i o ho hseq
    have hle := (wf.sent r hr i o ho hseq).2
    rw [hphase] at hle
    cases hop : o.op <;> simp [hop, Operation.index] at hle ⊢
  refine h.advance wf hr rfl rfl rfl rfl ?_ ?_ ?_ ?_
  · exact fun t ht i => ignores_update ht _ _ _ _ _
  · exact fun t ht => if_neg ht
  · intro t ht _
    rw [updated, if_pos ht]
    exact (Store.same_table_of_perm wf.consistent (ranges.hosts_perm _ _) t).symm
  · intro t ht i hi hT
    have hh := sidecar_handled (sidecar.after (c.orders i) (c.orders i).length)
      (.update r.seq r.types (r.types.map fun t => (t, c.versions t))
        (Store.tables (ranges.hosts r.seq c.store.hosts.entries) r.types))
    have hblocked : sidecar.Ahead (seen i) (c.orders i) (Disseminator.Blocks t) := by
      have := hT.acked (hall i hi)
      rwa [hphase] at this
    refine ⟨hblocked.snoc (h.seen_le i) fun hd => hd.kept_of_ne hh (by simp [Order.update]), ?_,
      fun ha => nomatch ha⟩
    refine Receiver.Since.first (fun o ho hof => ?_) ?_
    · have := hsent i o ho hof.2
      simp [this, Order.IsOf] at hof
    · -- the round is not completed yet, so its tables are installed
      have hnew : r.seq ∉ (sidecar.after (c.orders i) (c.orders i).length).v2Completed := by
        intro hin
        obtain ⟨o, ho, hop, hseq⟩ := (sidecar_traced (c.orders i) (c.orders i).length).completed r.seq hin
        rw [hsent i o ho hseq] at hop
        cases hop
      have hinst := hh.update_installs (f := Store.table (ranges.hosts r.seq c.store.hosts.entries)) rfl hnew
        (by simp [Order.update, Store.tables]) (by simpa [Order.update, Store.tables] using ht)
      refine hinst.imp_right fun heq table hsome => ?_
      rw [Inflight.eq_of_installed (heq.symm.trans hsome), updated, if_pos ht]
      exact .refl _

theorem Sound.sendUnlock (h : c.Sound seen T) (hr : r ∈ c.rounds) (hphase : r.phase = .update)
    (hall : ∀ i ∈ r.members, i ∈ r.acked) : (c.sendUnlock r).Sound seen T := by
  refine h.advance wf hr rfl rfl rfl rfl ?_ (fun _ _ => rfl) ?_ ?_
  · exact fun t ht i => wf.ignores_unlock hr ht i
  · intro t ht hpend
    refine h.store t hpend fun r₀ hr₀ ht₀ => ?_
    rw [wf.ledger.eq_of_seq hr₀ hr (wf.ledger.disjoint hr₀ hr ht₀ ht), hphase]
    simp
  · intro t ht i hi hT
    have hh := sidecar_handled (sidecar.after (c.orders i) (c.orders i).length) (.unlock r.seq r.types)
    have hholds : sidecar.Ahead (seen i) (c.orders i) (Disseminator.Holds t (T t)) := by
      have := hT.acked (hall i hi)
      rwa [hphase] at this
    refine ⟨hholds.snoc (h.seen_le i) fun hd => hd.kept hh (by simp [Order.unlock]), ?_, fun ha => nomatch ha⟩
    exact fun _ _ _ _ _ _ _ => trivial

theorem Sound.ack (h : c.Sound seen T) (hr : r ∈ c.rounds) {q : Nat}
    (hq : (c.orders i)[q]? = some o) (hlt : q < seen i) (ho : o.IsOf r.phase r.seq) :
    (c.setRound { r with acked := r.acked.insert i }).Sound seen T := by
  refine { h with store := ?_, tracks := ?_ }
  · intro t ht hphase
    refine h.store t ht fun r₀ hr₀ ht₀ => ?_
    by_cases heq : r₀.seq = r.seq
    · have := hphase _ (mem_setRound_self hr rfl)
      rw [wf.ledger.eq_of_seq hr₀ hr heq] at ht₀ ⊢
      exact this ht₀
    · exact hphase r₀ (mem_setRound_of_ne hr₀ heq) ht₀
  · intro j hj t ho' hh
    cases ho' with
    | none => exact h.tracks j hj t none hh
    | some r₀ =>
      obtain ⟨hr₀, ht⟩ := hh
      rcases mem_setRound hr₀ with ⟨hold, -⟩ | rfl
      · exact h.tracks j hj t (some r₀) ⟨hold, ht⟩
      · have hT := h.tracks j hj t (some r) ⟨hr, ht⟩
        by_cases hjm : j ∈ r.members
        · have hin := (tracks_of_mem hjm).1 hT
          refine (tracks_of_mem (r := { r with acked := r.acked.insert i }) hjm).2 ⟨hin.before, hin.since, ?_⟩
          intro ha
          rcases mem_insert_iff.1 ha with rfl | hold
          · exact hin.since.ahead hq ho hlt
          · exact hin.acked hold
        · exact (tracks_of_not_mem (r := { r with acked := r.acked.insert i }) hjm).2 ((tracks_of_not_mem hjm).1 hT)

/-- A round is dropped whose types can do with the given tables. -/
theorem Sound.release (h : c.Sound seen T) (hr : r ∈ c.rounds) (hT' : ∀ t, t ∉ r.types → T' t = T t)
    (hstore : ∀ t ∈ r.types, t ∉ c.pendingTypes → (Store.table c.store.hosts.entries t).Same (T' t))
    (hholds : ∀ t ∈ r.types, ∀ i ∈ c.streams,
      sidecar.Ahead (seen i) (c.orders i) (Disseminator.Holds t (T' t))) : (c.release r).Sound seen T' := by
  refine ⟨h.seen_le, ?_, ?_⟩
  · intro t ht hphase
    by_cases hmem : t ∈ r.types
    · exact hstore t hmem ht
    · rw [hT' t hmem]
      refine h.store t ht fun r₀ hr₀ ht₀ => hphase r₀ (mem_filter.2 ⟨hr₀, ?_⟩) ht₀
      simp only [decide_eq_true_eq]
      exact fun heq => hmem (wf.ledger.eq_of_seq hr₀ hr heq ▸ ht₀)
  · intro i hi t ho hh
    by_cases hmem : t ∈ r.types
    · cases ho with
      | none => exact hholds t hmem i hi
      | some r₀ =>
        obtain ⟨hr₀, hne⟩ := mem_filter.1 hh.1
        exact absurd (wf.ledger.disjoint hr₀ hr hh.2 hmem) (by simpa using hne)
    · rw [hT' t hmem]
      cases ho with
      | none =>
        refine h.tracks i hi t none ?_
        simpa [Holder, Connections.release, hmem] using hh
      | some r₀ => exact h.tracks i hi t (some r₀) ⟨(mem_filter.1 hh.1).1, hh.2⟩

/-! ### Streams -/

theorem Sound.dropStream (h : c.Sound seen T) (i : Nat) : (c.dropStream i).Sound seen T := by
  refine ⟨h.seen_le, ?_, ?_⟩
  · intro t ht hphase
    have hnot : t ∉ (c.store.delete i).1 ∧ t ∉ c.pendingTypes := by
      rw [← not_or]
      exact fun hor => ht (mem_union_iff.2 hor)
    have hsame := Store.same_table (wf.dropStream i).consistent wf.consistent (Store.hosted_delete c.store i hnot.1)
    refine hsame.trans (h.store t hnot.2 fun r hr ht => ?_)
    exact hphase (r.drop i) (mem_map_of_mem hr) ht
  · intro j hj t ho hh
    obtain ⟨hj, hne⟩ := mem_filter.1 hj
    cases ho with
    | none => exact h.tracks j hj t none hh
    | some r' =>
      obtain ⟨hr', ht⟩ := hh
      obtain ⟨r, hr, rfl⟩ := mem_map.1 hr'
      have hT := h.tracks j hj t (some r) ⟨hr, ht⟩
      by_cases hjm : j ∈ r.members
      · have hin := (tracks_of_mem hjm).1 hT
        refine (tracks_of_mem (mem_filter.2 ⟨hjm, hne⟩)).2 ⟨hin.before, hin.since, ?_⟩
        exact fun ha => hin.acked (mem_filter.1 ha).1
      · refine (tracks_of_not_mem fun hin => hjm (mem_filter.1 hin).1).2 ?_
        exact (tracks_of_not_mem hjm).1 hT

theorem Sound.addStream (h : c.Sound seen T) : c.addStream.Sound seen T := by
  refine { h with tracks := forall_mem_concat h.tracks fun t ho hh => ?_ }
  have hnil := wf.unsent c.streamIDx le_rfl
  simp only [Connections.addStream, hnil]
  refine Tracks.of_nil ?_
  rintro r rfl hin
  exact absurd (wf.streams_lt _ (wf.members r hh.1 hin)) (Nat.lt_irrefl _)

/-- The types of a snapshot have the table all streams go by. -/
theorem Sound.sendSnapshot (h : c.Sound seen T) (ranges : Ranges) (i : Nat) :
    (c.sendSnapshot ranges i).1.Sound seen T := by
  unfold Connections.sendSnapshot
  split
  · exact h
  · let types := (c.store.types.filter fun t => t ∉ c.pendingTypes).filter fun t => c.lockedTypes t = none
    let hosts := ranges.hosts (c.seq + 1) c.store.hosts.entries
    let c₀ : Connections := { c with seq := c.seq + 1, oneshots := (c.seq + 1, i) :: c.oneshots }
    have hnew : ∀ r ∈ c.rounds, c.seq + 1 ≠ r.seq := fun r hr heq => by
      have := wf.round_seq r hr
      omega
    have hlocked : ∀ r ∈ c.rounds, ∀ t ∈ r.types, t ∉ types := fun r hr t ht hin => by
      exact wf.ledger.not_mem_of_free (by simpa using (mem_filter.1 hin).2) hr ht
    have hsame : ∀ t ∈ types, (Store.table hosts t).Same (T t) := by
      intro t ht
      refine (Store.same_table_of_perm wf.consistent (ranges.hosts_perm _ _) t).trans (h.store t ?_ ?_)
      · simpa using (mem_filter.1 (mem_filter.1 ht).1).2
      · exact fun r hr hin => absurd ht (hlocked r hr t hin)
    have h₁ : (c₀.sendAll [i] (.lock (c.seq + 1) [])).Sound seen T := by
      refine Sound.sendAll { h with } hnew (fun r hr t _ j _ => ignores_lock (by simp) _ _) ?_
      exact fun t _ d d' hh hd => hd.kept hh (by simp [Order.lock])
    have h₂ : ((c₀.sendAll [i] (.lock (c.seq + 1) [])).sendAll [i]
        (.update (c.seq + 1) [] (types.map fun t => (t, c.versions t)) (Store.tables hosts types))).Sound seen T := by
      refine h₁.sendAll hnew (fun r hr t ht j _ => ignores_update (hlocked r hr t ht) _ _ _ _ _) ?_
      intro t _ d d' hh hd
      refine hd.updated hh (by simp [Order.update, Store.tables]) fun hin => hsame t ?_
      simpa [Order.update, Store.tables] using hin
    refine h₂.sendAll hnew ?_ fun t _ d d' hh hd => hd.kept hh (by simp [Order.unlock])
    -- nothing but this snapshot has its number
    intro r hr t ht j hj
    refine ⟨by simp [Order.Concerns, Order.unlock], fun _ o ho hseq => ?_⟩
    rw [orders_sendAll_of_mem hj, orders_sendAll_of_mem hj, mem_append, mem_append] at ho
    rcases ho with (hold | hlock) | hupdate
    · have := wf.order_seq j o hold
      have heq : o.seq = c.seq + 1 := hseq
      omega
    · rw [mem_singleton.1 hlock]
      simp [Order.Concerns, Order.lock]
    · rw [mem_singleton.1 hupdate]
      exact (ignores_update (hlocked r hr t ht) _ _ _ _ []).concerns

end Connections

end Dapr.SchedulerPlacement
