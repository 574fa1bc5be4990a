import Dapr.Placement.Counter
/-!
# The barrier of the placement service

Between rounds all sidecars hold the store's tables. During a round a sidecar either holds
the tables from before it or has the types blocked that differ, and the round goes on to
unlock them only when all have the new ones.
-/

namespace Dapr.Placement

open Lib.Delivery Lib.Runs Lib.Tables List

namespace Disseminator

/-- What holds at any time: the books, and that no sidecar has a type unblocked with a table
other than the one all go by. -/
structure Base (ident : String → Entry) (d : Disseminator) (seen : Nat → Nat) (T : String → Table) : Prop where
  nodup : d.streams.Nodup
  streams_lt : ∀ i ∈ d.streams, i < d.streamIDx
  hosts_lt : ∀ e ∈ d.store.hosts.entries, e.1 < d.streamIDx
  deletes : ∀ i ∈ d.waitingToDelete, i < d.streamIDx ∧ i ∉ d.streams
  unsent : ∀ i, d.streamIDx ≤ i → d.orders i = []
  seen_le : ∀ i, seen i ≤ (d.orders i).length
  named : Named ident d.store.hosts.entries
  waiting : ∀ h ∈ d.waitingToDisseminate, h.entry = ident h.name
  versions : ∀ i, ∀ o ∈ d.orders i, o.version ≤ d.currentVersion
  safe : ∀ i ∈ d.streams, ∀ t, sidecar.Ahead (seen i) (d.orders i) (Sidecar.Safe t (T t))

def stored (d : Disseminator) (t : String) : Table := Store.table d.store.hosts.entries t

/-- It is the UPDATE of the version. -/
def IsUpdate (version : Nat) (o : Order) : Prop := o.op = .update ∧ o.version = version

/-- A round is on whose tables have not reached all streams. -/
def Unsettled (d : Disseminator) : Prop := d.currentOperation = .lock ∨ d.currentOperation = .update

/-- The count of a round, and which tables its streams hold in each phase. -/
structure Inv (ident : String → Entry) (d : Disseminator) (seen : Nat → Nat) (T : String → Table) : Prop
    extends Base ident d seen T where
  known : d.currentOperation ≠ .unknown
  count : d.currentOperation ≠ .report →
    d.streamsInTargetState = (d.streams.countP fun i => (d.conns i).currentState = d.currentOperation : Nat)
  locking : d.currentOperation = .lock →
    (∀ i, ∀ o ∈ d.orders i, o.op = .update → o.version < d.currentVersion) ∧
      ∀ i ∈ d.streams, (d.conns i).currentState ≠ .update
  updating : d.currentOperation = .update → ∀ i ∈ d.streams, ∀ t,
    sidecar.Since (IsUpdate d.currentVersion) (d.orders i) (Sidecar.Holds t (d.stored t)) ∧
      ((d.conns i).currentState = .update → sidecar.Ahead (seen i) (d.orders i) (Sidecar.Holds t (d.stored t)))
  settled : ¬ d.Unsettled → (∀ t, Same (d.stored t) (T t)) ∧
    ∀ i ∈ d.streams, ∀ t, sidecar.Ahead (seen i) (d.orders i) (Sidecar.Holds t (T t))

variable {ident : String → Entry} {d : Disseminator} {seen : Nat → Nat} {T : String → Table}

/-- Without streams there is nothing to know. -/
theorem Base.of_no_streams (h : Base ident d seen T) (hnil : d.streams = []) (hop : d.currentOperation = .report) :
    Inv ident d seen d.stored where
  toBase := { h with safe := fun i hi => by simp [hnil] at hi }
  known := by simp [hop]
  count := fun hne => absurd hop hne
  locking := fun hl => by simp [hop] at hl
  updating := fun hl => by simp [hop] at hl
  settled := fun _ => ⟨fun t => .refl _, fun i hi => by simp [hnil] at hi⟩

/-! ## Orders -/

variable {sent : Nat → List Order} {i : Nat}

theorem seen_le_send (h : ∀ i, seen i ≤ (d.orders i).length) (i : Nat) : seen i ≤ ((d.send sent).orders i).length := by
  have := h i
  simp only [send, length_append]
  omega

section
variable (h : Base ident d seen T)
include h

/-- What a stream is pushed or sent with an UPDATE is the stored table. -/
theorem same_tables (ranges : Ranges) {t : String} {table : Table}
    (ht : (d.tables ranges i).lookup t = some table) : Same table (d.stored t) := by
  rw [Store.eq_of_lookup_placementTables ht]
  exact Store.same_table_of_perm h.named (ranges.hosts_perm _ _) t

theorem Base.send (hver : ∀ i, ∀ o ∈ sent i, o.version ≤ d.currentVersion) (hto : ∀ i, sent i ≠ [] → i < d.streamIDx)
    (hsafe : ∀ i ∈ d.streams, ∀ t, sidecar.Ahead (seen i) (d.orders i ++ sent i) (Sidecar.Safe t (T t))) :
    Base ident (d.send sent) seen T := by
  refine { h with unsent := ?_, seen_le := seen_le_send h.seen_le, versions := ?_, safe := hsafe }
  · intro i hi
    have hnil : sent i = [] := by
      by_contra hne
      exact absurd (hto i hne) (Nat.not_lt.2 hi)
    simp [Disseminator.send, hnil, h.unsent i hi]
  · intro i o ho
    rcases mem_append.1 ho with hold | hnew
    · exact h.versions i o hold
    · exact hver i o hnew

theorem Base.sendSome {p : Nat → Prop} [DecidablePred p] {f : Nat → Order}
    (hto : ∀ i, p i → i ∈ d.streams) (hver : ∀ i, (f i).version = d.currentVersion)
    (hsafe : ∀ i ∈ d.streams, ∀ t,
      sidecar.Ahead (seen i) (d.orders i ++ if p i then [f i] else []) (Sidecar.Safe t (T t))) :
    Base ident (d.send fun i => if p i then [f i] else []) seen T := by
  refine h.send (fun i o ho => ?_) (fun i hne => ?_) hsafe
  · rw [(mem_sent ho).1, hver i]
  · obtain ⟨o, ho⟩ := exists_mem_of_ne_nil _ hne
    exact h.streams_lt i (hto i (mem_sent ho).2)

/-- LOCKs and UPDATEs leave no type unblocked with another table. -/
theorem Base.safe_append (hi : i ∈ d.streams) {os : List Order}
    (hos : ∀ o ∈ os, o.op ≠ .unlock) (t : String) : sidecar.Ahead (seen i) (d.orders i ++ os) (Sidecar.Safe t (T t)) :=
  (h.safe i hi t).append (h.seen_le i) fun o ho _ hs => hs.kept (hos o ho)

/-! ## Rounds -/

/-- A round may start from any state, with a version that no order has yet. -/
theorem Base.lockAll (hnew : ∀ i, ∀ o ∈ d.orders i, o.op = .update → o.version < d.currentVersion)
    (hzero : d.streamsInTargetState = 0) : Inv ident d.lockAll seen T := by
  have hbase : Base ident d.disseminateLock seen T := by
    refine { h.sendSome (fun i hi => hi.1) (fun _ => rfl) ?_ with }
    refine fun i hi t => h.safe_append hi (fun o ho => ?_) t
    simp [(mem_sent ho).1, Order.lock]
  refine { toBase := { hbase with }, known := by simp [Disseminator.lockAll], count := ?_, locking := ?_,
           updating := fun hop => by simp [Disseminator.lockAll] at hop,
           settled := fun hun => absurd (.inl rfl) hun }
  · exact (Books.lockAll h.nodup h.streams_lt hzero).count
  · intro _
    refine ⟨fun i o ho hop => ?_, fun i hi => ?_⟩
    · rcases mem_append.1 ho with hold | hnew'
      · exact hnew i o hold hop
      · rw [(mem_sent hnew').1] at hop
        cases hop
    · have hi : i ∈ d.streams := hi
      simp [Disseminator.lockAll, hi]

theorem Base.startRound : Inv ident d.startRound seen T := by
  refine Base.lockAll { h with versions := fun i o ho => Nat.le_succ_of_le (h.versions i o ho) } ?_ rfl
  exact fun i o ho _ => Nat.lt_succ_of_le (h.versions i o ho)

end

theorem Inv.books (h : Inv ident d seen T) : Books d := ⟨h.nodup, h.streams_lt, h.known, h.count⟩

/-- All streams have locked: the stored tables are sent. -/
theorem Inv.updateAll (h : Inv ident d seen T) (ranges : Ranges) (hop : d.currentOperation = .lock) :
    Inv ident (d.updateAll ranges) seen T := by
  obtain ⟨hfresh, hstate⟩ := h.locking hop
  have hbase : Base ident (d.disseminateUpdate ranges) seen T := by
    refine h.sendSome (fun i hi => hi.1) (fun _ => rfl) fun i hi t => h.safe_append hi (fun o ho => ?_) t
    simp [(mem_sent ho).1, Order.update]
  refine { toBase := { hbase with }, known := by simp [Disseminator.updateAll], count := ?_,
           locking := fun hl => by simp [Disseminator.updateAll] at hl, updating := ?_,
           settled := fun hun => absurd (.inr rfl) hun }
  · exact (Books.fresh (d.updateAll ranges) h.nodup h.streams_lt (by simp [Disseminator.updateAll]) rfl hstate).count
  · intro _ i hi t
    refine ⟨?_, fun hu => absurd hu (hstate i hi)⟩
    have hnone : ∀ o ∈ d.orders i, ¬ IsUpdate d.currentVersion o := fun o ho hof =>
      absurd hof.2 (Nat.ne_of_lt (hfresh i o ho hof.1))
    simp only [Disseminator.updateAll, disseminateUpdate, Disseminator.send]
    split
    · exact Receiver.Since.first hnone (Sidecar.holds_update rfl fun table ht => same_tables h.toBase ranges ht)
    · rw [append_nil]
      exact fun q o hq hof => absurd hof (hnone o (mem_of_getElem? hq))

/-- All streams have the new tables: they may unlock, and go by them from now on. -/
theorem Inv.unlockAll (h : Inv ident d seen T) (hop : d.currentOperation = .update)
    (hall : ∀ i ∈ d.streams, (d.conns i).currentState = d.currentOperation) : Inv ident d.unlockAll seen d.stored := by
  have hholds : ∀ i ∈ d.streams, ∀ t, sidecar.Ahead (seen i) (d.disseminateUnlock.orders i)
      (Sidecar.Holds t (d.stored t)) := by
    intro i hi t
    refine ((h.updating hop i hi t).2 ((hall i hi).trans hop)).append (h.seen_le i) fun o ho s hs => hs.kept ?_
    simp [(mem_sent ho).1, Order.unlock]
  have hbase : Base ident d.disseminateUnlock seen d.stored := by
    have hstored : Base ident d seen d.stored :=
      { h.toBase with safe := fun i hi t => ((h.updating hop i hi t).2 ((hall i hi).trans hop)).imp fun s hs => hs.safe }
    refine hstored.sendSome (fun i hi => hi.1) (fun _ => rfl) ?_
    exact fun i hi t => (hholds i hi t).imp fun s hs => hs.safe
  refine { toBase := { hbase with }, known := by simp [Disseminator.unlockAll], count := ?_,
           locking := fun hl => by simp [Disseminator.unlockAll] at hl,
           updating := fun hl => by simp [Disseminator.unlockAll] at hl,
           settled := fun _ => ⟨fun t => .refl _, hholds⟩ }
  exact (h.books.enter hall (by decide) (by simp [hop]) _).count

/-- A stream reaches the state of the phase. -/
theorem Inv.reach (h : Inv ident d seen T) (hi : i ∈ d.streams) (hack : d.currentOperation = .update →
      ∀ t, sidecar.Ahead (seen i) (d.orders i) (Sidecar.Holds t (d.stored t))) :
    Inv ident (d.reach i d.currentOperation) seen T := by
  unfold Disseminator.reach
  split
  · rename_i hne
    have hconn : ∀ j, j ≠ i → Function.update d.conns i { d.conns i with currentState := d.currentOperation } j =
        d.conns j := fun j hj => Function.update_of_ne hj _ _
    refine { h with toBase := { h.toBase with }, count := ?_, locking := ?_, updating := ?_ }
    · intro hne'
      have hreach := h.books.reach hi hne'
      rw [Disseminator.reach, if_pos hne] at hreach
      exact hreach.count hne'
    · intro hl
      obtain ⟨hfresh, hstate⟩ := h.locking hl
      refine ⟨hfresh, fun j hj => ?_⟩
      by_cases hji : j = i
      · have hl : d.currentOperation = .lock := hl
        simp [hji, hl]
      · simpa [hconn j hji] using hstate j hj
    · intro hu j hj t
      obtain ⟨hsince, hacked⟩ := h.updating hu j hj t
      refine ⟨hsince, fun hstate => ?_⟩
      by_cases hji : j = i
      · exact hji ▸ hack hu t
      · exact hacked (by simpa [hconn j hji] using hstate)
  · exact h

/-! ## Streams -/

theorem mem_addStream {j : Nat} (hj : j ∈ d.addStream.streams) : j ∈ d.streams ∨ j = d.streamIDx := by
  simpa [Disseminator.addStream] using hj

theorem Base.holds_new (h : Base ident d seen T) (t : String) (T' : Table) :
    sidecar.Ahead (seen d.streamIDx) (d.orders d.streamIDx) (Sidecar.Holds t T') := by
  intro k _ hk
  rw [h.unsent d.streamIDx le_rfl] at hk ⊢
  rw [Nat.le_zero.1 hk]
  exact .inr nofun

theorem Base.not_mem_new (h : Base ident d seen T) : d.streamIDx ∉ d.streams :=
  fun hin => Nat.lt_irrefl _ (h.streams_lt _ hin)

theorem Base.addStream (h : Base ident d seen T) : Base ident d.addStream seen T := by
  refine { h with nodup := ?_, streams_lt := ?_, hosts_lt := ?_, deletes := ?_, unsent := ?_, safe := ?_ }
  · exact pairwise_concat h.nodup fun j hj heq => h.not_mem_new (heq ▸ hj)
  · exact forall_mem_concat (fun j hj => Nat.lt_succ_of_lt (h.streams_lt j hj)) (Nat.lt_succ_self _)
  · exact fun e he => Nat.lt_succ_of_lt (h.hosts_lt e he)
  · intro j hj
    obtain ⟨hlt, hnot⟩ := h.deletes j hj
    refine ⟨Nat.lt_succ_of_lt hlt, fun hin => ?_⟩
    rcases mem_addStream hin with hold | rfl
    · exact hnot hold
    · exact Nat.lt_irrefl _ hlt
  · exact fun j hj => h.unsent j (Nat.le_of_succ_le hj)
  · exact forall_mem_concat h.safe fun t => (h.holds_new t (T t)).imp fun s hs => hs.safe

theorem Inv.addStream (h : Inv ident d seen T) : Inv ident d.addStream seen T := by
  have hconn : ∀ j ∈ d.streams, d.addStream.conns j = d.conns j := fun j hj =>
    Function.update_of_ne (fun heq : j = d.streamIDx => h.not_mem_new (heq ▸ hj)) _ _
  refine { toBase := h.toBase.addStream, known := h.known, count := ?_, locking := ?_, updating := ?_, settled := ?_ }
  · exact h.books.sound.addStream.count
  · intro hop
    obtain ⟨hold, hstate⟩ := h.locking hop
    refine ⟨hold, forall_mem_concat (fun j hj => ?_) (by simp [Disseminator.addStream])⟩
    rw [hconn j hj]
    exact hstate j hj
  · intro hop j hj t
    rcases mem_addStream hj with hin | rfl
    · obtain ⟨hsince, hacked⟩ := h.updating hop j hin t
      exact ⟨hsince, fun hstate => hacked (by rwa [hconn j hin] at hstate)⟩
    · refine ⟨fun q o hq => ?_, fun hstate => ?_⟩
      · have hq : (d.orders d.streamIDx)[q]? = some o := hq
        rw [h.unsent d.streamIDx le_rfl] at hq
        cases hq
      · simp [Disseminator.addStream] at hstate
  · intro hun
    obtain ⟨hstore, hall⟩ := h.settled hun
    exact ⟨hstore, forall_mem_concat hall fun t => h.holds_new t (T t)⟩

theorem Base.setStore (h : Base ident d seen T) {host : Host} (hi : i < d.streamIDx)
    (hname : host.entry = ident host.name) : Base ident { d with store := (d.store.set i host).2 } seen T := by
  refine { h with hosts_lt := ?_, named := ?_ }
  · intro e he
    rcases Store.mem_of_mem_set he with hold | ⟨heq, -⟩
    · exact h.hosts_lt e hold
    · exact heq ▸ hi
  · intro e he
    rcases Store.mem_of_mem_set he with hold | ⟨-, hn, hentry⟩
    · exact h.named e hold
    · rw [hentry, hn, hname]

theorem Base.deleteAll (h : Base ident d seen T) (gone : List Nat) :
    Base ident { d with store := d.store.deleteAll gone } seen T :=
  { h with
    hosts_lt := fun e he => h.hosts_lt e (Store.mem_deleteAll.1 he).1
    named := fun e he => h.named e (Store.mem_deleteAll.1 he).1 }

theorem Base.applyDeletes (h : Base ident d seen T) : Base ident d.applyDeletes seen T :=
  { h.deleteAll d.waitingToDelete with deletes := nofun }

/-- Deletions of streams that have no entry change nothing. -/
theorem Inv.deleteAll (h : Inv ident d seen T) {gone : List Nat}
    (hgone : ∀ e ∈ d.store.hosts.entries, e.1 ∉ gone) (hun : ¬ d.Unsettled) :
    Inv ident { d with store := d.store.deleteAll gone } seen T := by
  obtain ⟨hstore, hall⟩ := h.settled hun
  refine { h with
    toBase := h.toBase.deleteAll gone
    updating := fun hop => absurd (.inr hop) hun
    settled := fun _ => ⟨fun t => ?_, hall⟩ }
  have hmem : ∀ e, e ∈ (d.store.deleteAll gone).hosts.entries ↔ e ∈ d.store.hosts.entries := fun e =>
    ⟨fun he => (Store.mem_deleteAll.1 he).1, fun he => Store.mem_deleteAll.2 ⟨he, hgone e he⟩⟩
  exact (Store.same_table_of_mem h.named hmem t).trans (hstore t)

theorem Inv.dropStream (h : Inv ident d seen T) (hi : i ∈ d.streams) : Inv ident (d.dropStream i) seen T := by
  have hsub : ∀ j ∈ (d.dropStream i).streams, j ∈ d.streams := fun j hj => (mem_filter.1 hj).1
  refine { known := h.known, count := ?_, locking := ?_, updating := ?_, settled := ?_, toBase := { h.toBase with
    nodup := h.nodup.filter _
    streams_lt := fun j hj => h.streams_lt j (hsub j hj)
    deletes := fun j hj => ⟨(h.deletes j hj).1, fun hin => (h.deletes j hj).2 (hsub j hin)⟩
    safe := fun j hj => h.safe j (hsub j hj) } }
  · exact (h.books.dropStream hi).count
  · intro hop
    obtain ⟨hold, hstate⟩ := h.locking hop
    exact ⟨hold, fun j hj => hstate j (hsub j hj)⟩
  · exact fun hop j hj => h.updating hop j (hsub j hj)
  · intro hun
    obtain ⟨hstore, hall⟩ := h.settled hun
    exact ⟨hstore, fun j hj => hall j (hsub j hj)⟩

/-- The stored table is pushed to one stream while no round is under way that changes it. -/
theorem Inv.disseminateTable (h : Inv ident d seen T) (ranges : Ranges) (hi : i ∈ d.streams) (hun : ¬ d.Unsettled) :
    Inv ident (d.disseminateTable ranges i) seen T := by
  obtain ⟨hstore, hall⟩ := h.settled hun
  have hholds : ∀ j ∈ d.streams, ∀ t,
      sidecar.Ahead (seen j) ((d.disseminateTable ranges i).orders j) (Sidecar.Holds t (T t)) := by
    intro j hj t
    refine (hall j hj t).append (h.seen_le j) fun o ho s hs => ?_
    dsimp only at ho
    split at ho
    · by_cases hop : o.op = .update
      · refine Sidecar.holds_update hop fun table ht => ?_
        have heq : o = .update d.currentVersion (d.tables ranges j) := by
          simp only [mem_cons, not_mem_nil, or_false] at ho
          rcases ho with rfl | rfl | rfl
          · simp [Order.lock] at hop
          · rfl
          · simp [Order.unlock] at hop
        rw [heq] at ht
        exact (same_tables h.toBase ranges ht).trans (hstore t)
      · exact hs.kept hop
    · cases ho
  have hbase : Base ident (d.disseminateTable ranges i) seen T := by
    refine { h.toBase.send (fun j o ho => ?_) (fun j hne => ?_)
      (fun j hj t => (hholds j hj t).imp fun s hs => hs.safe) with }
    · split at ho
      · simp only [mem_cons, not_mem_nil, or_false] at ho
        rcases ho with rfl | rfl | rfl <;> exact le_rfl
      · cases ho
    · split at hne
      · rename_i hj
        exact hj ▸ h.streams_lt i hi
      · exact absurd rfl hne
  refine { toBase := hbase, known := h.known, count := ?_, locking := ?_, updating := ?_,
           settled := fun _ => ⟨hstore, hholds⟩ }
  · exact (h.books.sound.disseminateTable ranges i).count
  · exact fun hop => absurd (.inl hop) hun
  · exact fun hop => absurd (.inr hop) hun

end Disseminator

end Dapr.Placement
