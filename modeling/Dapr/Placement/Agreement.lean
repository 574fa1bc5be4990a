import Dapr.Placement.Barrier
/-!
# Sidecars of one namespace agree

The handlers keep the barrier as long as a host name stands for one host and a table is
pushed to a single stream only while all streams go by it: not in the middle of a round, and
not after deletions were applied that no round has spread.
-/

namespace Dapr.Placement

open Lib.Delivery Lib.Runs Lib.Tables List

namespace Disseminator

variable {ident : String → Entry} {d : Disseminator} {seen : Nat → Nat} {T : String → Table} (ranges : Ranges)
variable {host : Host}

/-- The barrier stands. -/
def Good (ident : String → Entry) (d : Disseminator) (seen : Nat → Nat) : Prop := ∃ T, Inv ident d seen T

theorem Base.lookup_new (h : Base ident d seen T) : d.store.hosts.lookup d.streamIDx = none := by
  by_contra hne
  obtain ⟨host, hhost⟩ := Option.ne_none_iff_exists'.1 hne
  exact Nat.lt_irrefl _ (h.hosts_lt ⟨d.streamIDx, host⟩ (Store.mem_entries.2 hhost))

/-! ## Streams that waited -/

theorem Base.connect (h : Base ident d seen T) (hname : host.entry = ident host.name) :
    Base ident { d.addStream with store := (d.store.set d.streamIDx host).2 } seen T :=
  h.addStream.setStore (Nat.lt_succ_self _) hname

theorem addWaiting_cons (d : Disseminator) (host : Host) (waiting : List Host) :
    d.addWaiting (host :: waiting) =
      let rest := Disseminator.addWaiting { d.addStream with store := (d.store.set d.streamIDx host).2 } waiting
      (rest.1, (d.store.set d.streamIDx host).1 || rest.2.1, d.streamIDx :: rest.2.2) := rfl

theorem Base.addWaiting (h : Base ident d seen T) {waiting : List Host}
    (hnames : ∀ host ∈ waiting, host.entry = ident host.name) : Base ident (d.addWaiting waiting).1 seen T := by
  induction waiting generalizing d with
  | nil => exact h
  | cons host waiting ih =>
    exact ih (h.connect (hnames host mem_cons_self)) fun host' hh => hnames host' (mem_cons_of_mem _ hh)

/-- Waiting streams that bring no types change nothing. -/
theorem Inv.addWaiting (h : Inv ident d seen T) {waiting : List Host} (hsame : (d.addWaiting waiting).2.1 = false) :
    Inv ident (d.addWaiting waiting).1 seen T := by
  induction waiting generalizing d with
  | nil => exact h
  | cons host waiting ih =>
    rw [addWaiting_cons] at hsame ⊢
    obtain ⟨hset, hrest⟩ := Bool.or_eq_false_iff.1 hsame
    rw [Store.set_of_unchanged hset] at hrest ⊢
    exact ih h.addStream hrest

theorem Base.addWaiting_changed (h : Base ident d seen T) {waiting : List Host}
    (hnames : ∀ host ∈ waiting, host.entry = ident host.name) (htypes : ∃ host ∈ waiting, host.entities ≠ []) :
    (d.addWaiting waiting).2.1 = true := by
  induction waiting generalizing d with
  | nil => obtain ⟨_, hmem, _⟩ := htypes; cases hmem
  | cons host waiting ih =>
    have hnext := h.connect (hnames host mem_cons_self)
    have hnames' : ∀ host ∈ waiting, host.entry = ident host.name := fun host' hh =>
      hnames host' (mem_cons_of_mem _ hh)
    obtain ⟨host', hmem, hne⟩ := htypes
    refine Bool.or_eq_true_iff.2 ?_
    rcases mem_cons.1 hmem with rfl | hmem
    · exact .inl ((Store.set_fst _ _ _).trans (Store.hostChanged_new h.lookup_new hne))
    · exact .inr (ih hnext hnames' ⟨host', hmem, hne⟩)

theorem Inv.pushAll (h : Inv ident d seen T) (hun : ¬ d.Unsettled) {added : List Nat}
    (hadded : ∀ i ∈ added, i ∈ d.streams) : Inv ident (added.foldl (Disseminator.disseminateTable ranges) d) seen T := by
  induction added generalizing d with
  | nil => exact h
  | cons i added ih =>
    obtain ⟨hi, hrest⟩ := forall_mem_cons.1 hadded
    exact ih (h.disseminateTable ranges hi hun) hun hrest

/-- What was waiting either starts a round or, where it changes nothing, is pushed the table. -/
theorem Base.processWaitingDisseminate (h : Base ident d seen T) {force : Bool}
    (hwait : d.waitingToDisseminate ≠ [] ∨ Inv ident d seen T)
    (hround : force = true ∨ (∃ host ∈ d.waitingToDisseminate, host.entities ≠ []) ∨
      Inv ident d seen T ∧ (d.Unsettled → d.waitingToDisseminate = [])) :
    Good ident (d.processWaitingDisseminate ranges force) seen := by
  unfold Disseminator.processWaitingDisseminate
  split
  · rename_i hnil
    exact ⟨T, hwait.resolve_left fun hne => hne hnil⟩
  · rename_i hne
    have hstart : Base ident { d with waitingToDisseminate := [] } seen T :=
      { h with waiting := nofun }
    dsimp only
    split
    · exact ⟨T, (hstart.addWaiting h.waiting).startRound⟩
    · rename_i hquiet
      obtain ⟨hforce, hsame⟩ := not_or.1 hquiet
      -- only a state without a round under way is left
      rcases hround with hf | htypes | ⟨hinv, hidle⟩
      · exact absurd hf hforce
      · exact absurd (hstart.addWaiting_changed h.waiting htypes) hsame
      · have hun : ¬ d.Unsettled := fun hu => hne (hidle hu)
        have hinv' : Inv ident { d with waitingToDisseminate := [] } seen T := { hinv with toBase := hstart }
        refine ⟨T, (hinv'.addWaiting (Bool.eq_false_of_not_eq_true hsame)).pushAll ranges ?_ ?_⟩
        · rw [Unsettled, addWaiting_currentOperation]
          exact hun
        · intro i hi
          have := (mem_filter.1 hi).2
          simp only [decide_eq_true_eq] at this
          exact this.1

/-! ## The end of a round -/

theorem Inv.processWaitingDeletes (h : Inv ident d seen T) : Inv ident d.processWaitingDeletes seen T := by
  unfold Disseminator.processWaitingDeletes
  split
  · exact h
  · exact h.toBase.applyDeletes.startRound

theorem Inv.startCoalesceTimer (h : Inv ident d seen T) : Inv ident d.startCoalesceTimer seen T := by
  unfold Disseminator.startCoalesceTimer
  split
  · exact h
  · exact { h with toBase := { h.toBase with } }

theorem Inv.finishRound (h : Inv ident d seen T) (hop : d.currentOperation = .report) :
    Good ident (d.finishRound ranges) seen := by
  unfold Disseminator.finishRound
  split
  · exact ⟨T, h.startCoalesceTimer⟩
  · split
    · exact ⟨T, h.processWaitingDeletes⟩
    · refine h.toBase.processWaitingDisseminate ranges (.inr h) (.inr (.inr ⟨h, fun hu => ?_⟩))
      simp [Unsettled, hop] at hu

/-- All streams have unlocked, and further deletions may be queued. -/
theorem Inv.report (h : Inv ident d seen T) (hop : d.currentOperation = .unlock) {gone : List Nat}
    (hgone : ∀ i ∈ gone, i < d.streamIDx ∧ i ∉ d.streams) :
    Inv ident { d with
      currentOperation := .report, streamsInTargetState := 0, waitingToDelete := d.waitingToDelete ++ gone } seen T := by
  refine { toBase := { h.toBase with deletes := fun i hi => ?_ }, known := by simp, count := fun hne => absurd rfl hne,
           locking := fun hl => ?_, updating := fun hl => ?_, settled := fun _ => h.settled fun hu => ?_ }
  · exact (mem_append.1 hi).elim (h.deletes i) (hgone i)
  · cases hl
  · cases hl
  · simp [Unsettled, hop] at hu

theorem Base.orphans (h : Base ident d seen T) (i : Nat) (hi : i ∈ d.store.collectOrphans d.streams) :
    i < d.streamIDx ∧ i ∉ d.streams := by
  obtain ⟨hmem, hnot⟩ := mem_filter.1 hi
  obtain ⟨e, he, rfl⟩ := mem_map.1 hmem
  exact ⟨h.hosts_lt e he, by simpa using hnot⟩

/-! ## Acks -/

/-- All streams are in the state of the phase. -/
theorem Inv.endPhase (h : Inv ident d seen T) (hop : d.currentOperation ≠ .report)
    (hfull : (d.streams.length : Int) ≤ d.streamsInTargetState) {gone : List Nat}
    (hgone : ∀ i ∈ gone, i < d.streamIDx ∧ i ∉ d.streams) : Good ident (d.endPhase ranges gone) seen := by
  have hall := h.books.all_reached hop hfull
  unfold Disseminator.endPhase
  cases hcase : d.currentOperation with
  | unknown | report => exact ⟨T, h⟩
  | lock => exact ⟨T, h.updateAll ranges hcase⟩
  | update => exact ⟨_, h.unlockAll hcase hall⟩
  | unlock => exact (h.report hcase hgone).finishRound ranges rfl

/-- The answer to a table that was pushed to a stream alone counts for no round. -/
theorem Inv.answered (h : Inv ident d seen T) (i : Nat) : Inv ident (d.answered i) seen T := by
  have hstate : ∀ j, ((d.answered i).conns j).currentState = (d.conns j).currentState := by
    intro j
    by_cases hj : j = i
    · subst hj
      simp [Disseminator.answered]
    · simp [Disseminator.answered, hj]
  refine { h with toBase := { h.toBase with }, count := ?_, locking := ?_, updating := ?_ }
  · exact (h.books.sound.answered i).count
  · simp only [hstate]
    exact h.locking
  · simp only [hstate]
    exact h.updating

/-- The sidecar of a stream handled an order of the version it acknowledges or a later one. -/
theorem Inv.handleAck (h : Inv ident d seen T) {i q : Nat} {o : Order} {a : Ack}
    (hq : (d.orders i)[q]? = some o) (hlt : q < seen i) (hop : a.op = o.op) (hver : a.version ≤ o.version) (host : Host) :
    Good ident (d.handleReportedHost ranges ⟨i, a.op.hostOperation, some a.version, host⟩) seen := by
  have hack : d.operationOf ⟨i, a.op.hostOperation, some a.version, host⟩ = a.op.hostOperation := by
    cases a.op <;> rfl
  have hreach : i ∈ d.streams → a.op.hostOperation = d.currentOperation →
      d.isOld (some a.version) = false → Inv ident (d.reach i d.currentOperation) seen T := by
    intro hi hsame hold
    refine h.reach hi fun hu t => ?_
    have hle := h.versions i o (mem_of_getElem? hq)
    have hge : d.currentVersion ≤ a.version := by simpa [isOld] using hold
    have hupdate : a.op = .update := by
      rw [hu] at hsame
      revert hsame
      cases a.op <;> simp [OrderOp.hostOperation]
    exact (h.updating hu i hi t).1.ahead hq ⟨hop ▸ hupdate, by omega⟩ hlt
  have hnext := handled ranges d ⟨i, a.op.hostOperation, some a.version, host⟩
  generalize d.handleReportedHost ranges ⟨i, a.op.hostOperation, some a.version, host⟩ = d' at hnext ⊢
  obtain ⟨hop', hstreams, hidx, -⟩ := reach_fields d i d.currentOperation
  cases hnext with
  | same => exact ⟨T, h⟩
  | answered => exact ⟨T, h.answered i⟩
  | reported _ hreport =>
    rw [hack] at hreport
    cases hcase : a.op <;> simp [hcase, OrderOp.hostOperation] at hreport
  | reached hi hold hsame => exact ⟨T, hreach hi (hack.symm.trans hsame) hold⟩
  | ended hi hold hsame hround hfull =>
    refine (hreach hi (hack.symm.trans hsame) hold).endPhase ranges (by rwa [hop']) (by rw [hstreams, hfull]) ?_
    rw [hidx, hstreams]
    exact h.toBase.orphans

/-! ## Reports -/

theorem handleReportedHost_report (d : Disseminator) (i : Nat) (host : Host) :
    d.handleReportedHost ranges ⟨i, .report, none, host⟩ = d.doReport ranges i host := by
  simp [handleReportedHost, isOld, handleCurrent]

theorem Base.doReport_changed (h : Base ident d seen T) {i : Nat}
    (hi : i < d.streamIDx) (hname : host.entry = ident host.name) (hchanged : d.store.hostChanged i host = true) :
    Good ident (d.doReport ranges i host) seen := by
  have hset : (d.store.set i host).1 = true := (Store.set_fst _ _ _).trans hchanged
  refine ⟨T, ?_⟩
  simp only [doReport, hset]
  exact (h.setStore hi hname).startRound

theorem Inv.doReport_unchanged (h : Inv ident d seen T) {i : Nat}
    (hsame : d.store.hostChanged i host ≠ true) (hun : d.Unsettled → i ∈ d.streams → d.store.has i = true) :
    Inv ident (d.doReport ranges i host) seen T := by
  have hset : (d.store.set i host).1 ≠ true := fun hs => hsame ((Store.set_fst _ _ _).symm.trans hs)
  simp only [doReport]
  rw [if_neg hset]
  split
  · rename_i hpush
    refine h.disseminateTable ranges hpush.1 fun hu => ?_
    have := hun hu hpush.1
    rw [hpush.2] at this
    cases this
  · exact h

/-! ## Events -/

/-- A new stream, while no round is under way. -/
theorem Inv.join (h : Inv ident d seen T) (hname : host.entry = ident host.name)
    (hop : d.currentOperation = .report) :
    Good ident (d.addStream.handleReportedHost ranges ⟨d.streamIDx, .report, none, host⟩) seen := by
  rw [handleReportedHost_report]
  by_cases hchanged : d.addStream.store.hostChanged d.streamIDx host = true
  · exact h.toBase.addStream.doReport_changed ranges (Nat.lt_succ_self _) hname hchanged
  · refine ⟨T, h.addStream.doReport_unchanged ranges hchanged fun hu => ?_⟩
    have hop' : d.addStream.currentOperation = .report := hop
    simp [Unsettled, hop'] at hu

theorem Inv.handleAdd (h : Inv ident d seen T) (hname : host.entry = ident host.name)
    (hpush : d.currentOperation = .report → d.coalesceTimer = false →
      d.streams = [] ∨ host.entities ≠ [] ∨ ∀ e ∈ d.store.hosts.entries, e.1 ∈ d.streams) :
    Good ident (d.handleAdd ranges host) seen := by
  unfold Disseminator.handleAdd
  split
  · exact ⟨T, { h with toBase := { h.toBase with waiting := forall_mem_concat h.waiting hname } }⟩
  · rename_i hidle
    obtain ⟨hop, htimer⟩ := not_or.1 hidle
    have hop : d.currentOperation = .report := not_not.1 hop
    -- the disseminator once the queued deletions and the orphans are out of the store
    set d₁ := d.applyDeletes with hd₁
    set d₂ := Disseminator.applyDeletes { d₁ with waitingToDelete := d₁.store.collectOrphans d₁.streams } with hd₂
    have hb₁ : Base ident d₁ seen T := h.toBase.applyDeletes
    have hb₂ : Base ident d₂ seen T := Base.applyDeletes { hb₁ with deletes := hb₁.orphans }
    rcases hpush hop (by simpa using htimer) with hnil | htypes | hall
    · exact (hb₂.of_no_streams hnil hop).join ranges hname hop
    · rw [handleReportedHost_report]
      exact hb₂.addStream.doReport_changed ranges (Nat.lt_succ_self _) hname
        (Store.hostChanged_new hb₂.lookup_new htypes)
    · have hun : ¬ d.Unsettled := fun hu => by simp [Unsettled, hop] at hu
      have hkept : ∀ gone : List Nat, (∀ i ∈ gone, i ∉ d.streams) → ∀ e ∈ d.store.hosts.entries, e.1 ∉ gone :=
        fun gone hgone e he hin => hgone e.1 hin (hall e he)
      have h₁ : Inv ident d₁ seen T :=
        { h.deleteAll (hkept d.waitingToDelete fun i hi => (h.deletes i hi).2) hun with toBase := hb₁ }
      have hgone : ∀ e ∈ d₁.store.hosts.entries, e.1 ∉ d₁.store.collectOrphans d₁.streams :=
        fun e he hin => (hb₁.orphans e.1 hin).2 (hall e (Store.mem_deleteAll.1 he).1)
      have h₂ : Inv ident d₂ seen T := { h₁.deleteAll hgone hun with toBase := hb₂ }
      exact h₂.join ranges hname hop

theorem Inv.queueDelete (h : Inv ident d seen T) {i : Nat} (hlt : i < d.streamIDx) (hi : i ∉ d.streams) :
    Inv ident { d with waitingToDelete := d.waitingToDelete ++ [i] } seen T :=
  { h with toBase := { h.toBase with deletes := forall_mem_concat h.deletes ⟨hlt, hi⟩ } }

theorem Inv.handleCloseStream (h : Inv ident d seen T) (i : Nat) :
    Good ident (d.handleCloseStream ranges i) seen := by
  unfold Disseminator.handleCloseStream
  split
  · exact ⟨T, h⟩
  · rename_i hi
    have hi : i ∈ d.streams := not_not.1 hi
    have hdrop := h.dropStream hi
    have hqueue := hdrop.queueDelete (h.streams_lt i hi) fun hin => by simp [Disseminator.dropStream] at hin
    dsimp only
    split
    · exact ⟨T, hdrop⟩
    · split
      · exact ⟨T, hdrop⟩
      · split
        · next hop =>
          split
          · next hfull =>
            rw [advancePhase_eq]
            · exact hqueue.endPhase ranges hop hfull (by simp)
            · exact hfull
          · exact ⟨T, hqueue⟩
        · split
          · exact ⟨T, hqueue⟩
          · exact ⟨T, hqueue.processWaitingDeletes⟩

theorem Base.filterStreams (h : Base ident d seen T) (p : Nat → Bool) :
    Base ident { d with streams := d.streams.filter p } seen T := by
  have hsub : ∀ i ∈ d.streams.filter p, i ∈ d.streams := fun i hi => (mem_filter.1 hi).1
  exact { h with
    nodup := h.nodup.filter p
    streams_lt := fun i hi => h.streams_lt i (hsub i hi)
    deletes := fun i hi => ⟨(h.deletes i hi).1, fun hin => (h.deletes i hi).2 (hsub i hin)⟩
    safe := fun i hi => h.safe i (hsub i hi) }

theorem Base.evict (h : Base ident d seen T) : Base ident d.evict seen T :=
  { ((h.filterStreams fun i => (d.conns i).currentState = d.currentOperation).deleteAll
      (d.streams.filter fun i => (d.conns i).currentState ≠ d.currentOperation)).applyDeletes with
    versions := fun i o ho => Nat.le_succ_of_le (h.versions i o ho)
    waiting := nofun }

theorem Inv.handleTimeout (h : Inv ident d seen T) (version : Nat) : Good ident (d.handleTimeout version) seen := by
  by_cases hcurrent : version = d.currentVersion
  · subst hcurrent
    rw [handleTimeout_current]
    have hadd := h.toBase.evict.addWaiting h.waiting
    obtain ⟨hversion, horders, hzero⟩ := addWaiting_fields d.evict d.waitingToDisseminate
    dsimp only
    split
    · rename_i hnil
      exact ⟨_, hadd.of_no_streams hnil (addWaiting_currentOperation _ _)⟩
    · refine ⟨T, hadd.lockAll (fun i o ho _ => ?_) hzero⟩
      rw [horders] at ho
      rw [hversion]
      exact Nat.lt_succ_of_le (h.versions i o ho)
  · rw [handleTimeout_other hcurrent]
    exact ⟨T, h⟩

theorem Inv.handleCoalesceFire (h : Inv ident d seen T)
    (hpush : d.Unsettled → d.waitingToDisseminate = [] ∨ d.waitingToDelete ≠ [] ∨
      ∃ host ∈ d.waitingToDisseminate, host.entities ≠ []) : Good ident (d.handleCoalesceFire ranges) seen := by
  unfold Disseminator.handleCoalesceFire
  have hfired : Inv ident { d with coalesceTimer := false } seen T := { h with toBase := { h.toBase with } }
  dsimp only
  split
  · exact ⟨T, hfired.processWaitingDeletes⟩
  · rename_i hboth
    by_cases hdel : d.waitingToDelete = []
    · have hsame : Disseminator.applyDeletes { d with coalesceTimer := false } = { d with coalesceTimer := false } := by
        simp only [hdel]
        rfl
      rw [hsame]
      refine hfired.toBase.processWaitingDisseminate ranges (.inr hfired) (.inr ?_)
      by_cases hun : d.Unsettled
      · rcases hpush hun with hnil | hne | htypes
        · exact .inr ⟨hfired, fun _ => hnil⟩
        · exact absurd hdel hne
        · exact .inl htypes
      · exact .inr ⟨hfired, fun hu => absurd hu hun⟩
    · refine hfired.toBase.applyDeletes.processWaitingDisseminate ranges (.inl fun hnil => hboth ⟨hdel, hnil⟩) (.inl ?_)
      simpa using hdel

theorem Inv.deliver (h : Inv ident d seen T) (i : Nat) :
    Inv ident d (Function.update seen i (min (seen i + 1) (d.orders i).length)) T := by
  have hnext : ∀ j, seen j ≤ Function.update seen i (min (seen i + 1) (d.orders i).length) j ∧
      Function.update seen i (min (seen i + 1) (d.orders i).length) j ≤ (d.orders j).length := by
    intro j
    have hle := h.seen_le j
    by_cases hj : j = i
    · subst hj
      simp only [Function.update_self]
      omega
    · simp only [Function.update_of_ne hj]
      omega
  refine { h with
    toBase := { h.toBase with
      seen_le := fun j => (hnext j).2
      safe := fun j hj t => (h.safe j hj t).later (hnext j).1 }
    updating := fun hop j hj t => ?_
    settled := fun hun => ?_ }
  · obtain ⟨hsince, hacked⟩ := h.updating hop j hj t
    exact ⟨hsince, fun hstate => (hacked hstate).later (hnext j).1⟩
  · obtain ⟨hstore, hall⟩ := h.settled hun
    exact ⟨hstore, fun j hj t => (hall j hj t).later (hnext j).1⟩

end Disseminator

/-! ## Agreement -/

namespace Namespace

/-- A host name stands for one host; a table is pushed to one stream alone only between
rounds, and not after deletions that no round has spread. -/
def Meets (ident : String → Entry) (n : Namespace) : Event → Prop
  | .add host => host.entry = ident host.name ∧
      (n.server.currentOperation = .report → n.server.coalesceTimer = false →
        n.server.streams = [] ∨ host.entities ≠ [] ∨
          ∀ e ∈ n.server.store.hosts.entries, e.1 ∈ n.server.streams)
  | .report i host => host.entry = ident host.name ∧
      (n.server.Unsettled → i ∈ n.server.streams →
        n.server.store.hostChanged i host = true ∨ n.server.store.has i = true)
  | .coalesceFire => n.server.Unsettled →
      n.server.waitingToDisseminate = [] ∨ n.server.waitingToDelete ≠ [] ∨
        ∃ host ∈ n.server.waitingToDisseminate, host.entities ≠ []
  | _ => True

/-- An event that can happen and meets the condition. -/
def Step (ident : String → Entry) (n n' : Namespace) : Prop :=
  ∃ ranges e, n.Allowed e ∧ n.Meets ident e ∧ n' = n.handle ranges e

variable {ident : String → Entry}

theorem good_step {n n' : Namespace} (h : n.server.Good ident n.seen) (hs : n.Step ident n') :
    n'.server.Good ident n'.seen := by
  obtain ⟨ranges, e, hok, hmeets, rfl⟩ := hs
  obtain ⟨T, h⟩ := h
  cases e with
  | add host => exact h.handleAdd ranges hmeets.1 hmeets.2
  | report i host =>
    simp only [handle, Disseminator.handleReportedHost_report]
    by_cases hchanged : n.server.store.hostChanged i host = true
    · exact h.toBase.doReport_changed ranges hok hmeets.1 hchanged
    · exact ⟨T, h.doReport_unchanged ranges hchanged fun hu hi => (hmeets.2 hu hi).resolve_left hchanged⟩
  | ack i a =>
    obtain ⟨q, o, hq, hlt, hack⟩ := hok
    obtain ⟨hop, hver⟩ := Sidecar.handleOrder_ack hack
    exact h.handleAck ranges hq hlt hop hver _
  | close i => exact h.handleCloseStream ranges i
  | timeout version => exact h.handleTimeout version
  | coalesceFire => exact h.handleCoalesceFire ranges hmeets
  | deliver i => exact ⟨T, h.deliver i⟩

/-- What events that meet the condition lead to. -/
def Reached (ident : String → Entry) : Namespace → Prop :=
  Lib.Runs.Reachable (fun n => ∃ coalesceWindow, n = .new coalesceWindow) (Step ident)

theorem good_new (ident : String → Entry) (coalesceWindow : Int) :
    (Disseminator.new coalesceWindow).Good ident fun _ => 0 := by
  refine ⟨_, Disseminator.Base.of_no_streams (T := fun _ => ∅) ?_ rfl rfl⟩
  constructor <;> intros <;> simp_all [Disseminator.new, Store.new, Named]

theorem Reached.good {n : Namespace} (h : n.Reached ident) : n.server.Good ident n.seen := by
  refine h.invariant (fun n => n.server.Good ident n.seen) ?_ fun n n' hn hs => good_step hn hs
  rintro _ ⟨coalesceWindow, rfl⟩
  exact good_new ident coalesceWindow

/-- In a run whose events meet the condition, two connected sidecars that are both not locked
on a type and have a table for it have the same one. -/
theorem sidecars_agree_of_meets {ident : String → Entry} {n : Namespace} (h : n.Reached ident) {i j : Nat}
    (hi : n.Connected i) (hj : n.Connected j) {t : String} (hti : t ∉ (n.sidecar i).blockedTypes)
    (htj : t ∉ (n.sidecar j).blockedTypes) {a b : Table} (ha : (n.sidecar i).entries.lookup t = some a)
    (hb : (n.sidecar j).entries.lookup t = some b) : Same a b := by
  obtain ⟨T, hT⟩ := h.good
  have hsame : ∀ {i : Nat}, n.Connected i → t ∉ (n.sidecar i).blockedTypes → ∀ {a : Table},
      (n.sidecar i).entries.lookup t = some a → Same a (T t) := by
    intro i hi hti a ha
    rcases (hT.safe i hi.1 t).now (hT.seen_le i) with hclosed | hblocked | hholds
    · rw [show (Placement.sidecar.after _ _).closed = _ from hi.2] at hclosed
      cases hclosed
    · exact absurd hblocked hti
    · exact hholds a ha
  exact (hsame hi hti ha).trans (hsame hj htj hb).symm

/-! ## Runs -/

/-- Handle events one after the other, ranging over maps in the order they are listed. -/
def run (n : Namespace) (events : List Event) : Namespace := events.foldl (handle .inOrder) n

/-- Each event is one of `P` where it comes. -/
def EachIn (P : Namespace → Event → Prop) (n : Namespace) : List Event → Prop
  | [] => True
  | e :: events => P n e ∧ (n.handle .inOrder e).EachIn P events

theorem Reached.run {n : Namespace} {events : List Event} (h : n.Reached ident)
    (hok : n.EachIn Allowed events) (hmeets : n.EachIn (Meets ident) events) : (n.run events).Reached ident := by
  induction events generalizing n with
  | nil => exact h
  | cons e events ih => exact ih (h.step ⟨.inOrder, e, hok.1, hmeets.1, rfl⟩) hok.2 hmeets.2

theorem allowed_ack {n : Namespace} {i : Nat} {a : Ack} (q : Nat) (o : Order) (ho : (n.server.orders i)[q]? = some o)
    (hq : q < n.seen i) (ha : ((Placement.sidecar.after (n.server.orders i) q).handleOrder o).2 = some a) :
    n.Allowed (.ack i a) := ⟨q, o, ho, hq, ha⟩

/-- A host that reports a type gets through the round for it, then a client without types
joins. -/
def joinEvents : List Event :=
  [.add ⟨"10.0.0.1:3500", 0, "app", "default", ["t"]⟩, .deliver 0, .ack 0 ⟨.lock, 1⟩, .deliver 0,
   .ack 0 ⟨.update, 1⟩, .deliver 0, .ack 0 ⟨.unlock, 1⟩, .add ⟨"10.0.0.3:3500", 0, "client", "default", []⟩]

theorem joinEvents_allowed {events : List Event} (h : ((new 0).run joinEvents).EachIn Allowed events) :
    (new 0).EachIn Allowed (joinEvents ++ events) :=
  ⟨trivial, trivial, allowed_ack 0 _ rfl (by decide) rfl, trivial, allowed_ack 1 _ rfl (by decide) rfl, trivial,
    allowed_ack 2 _ rfl (by decide) rfl, trivial, h⟩

/-- The client is pushed the table that the host got by its round. -/
theorem sidecars_agree_of_meets_join :
    (((new 0).run (joinEvents ++ [.deliver 1, .deliver 1, .deliver 1])).sidecar 0).entries.lookup "t" =
      some (AList.insert "10.0.0.1:3500" ⟨0, "app"⟩ ∅) ∧
    (((new 0).run (joinEvents ++ [.deliver 1, .deliver 1, .deliver 1])).sidecar 1).entries.lookup "t" =
      some (AList.insert "10.0.0.1:3500" ⟨0, "app"⟩ ∅) ∧
    Same (AList.insert "10.0.0.1:3500" (⟨0, "app"⟩ : Entry) ∅) (AList.insert "10.0.0.1:3500" ⟨0, "app"⟩ ∅) := by
  have hreached : ((new 0).run (joinEvents ++ [.deliver 1, .deliver 1, .deliver 1])).Reached
      fun name => if name = "10.0.0.1:3500" then ⟨0, "app"⟩ else ⟨0, "client"⟩ := by
    refine Reached.run (.start ⟨0, rfl⟩) (joinEvents_allowed ⟨trivial, trivial, trivial, trivial⟩) ?_
    refine ⟨⟨by decide, fun _ _ => .inl rfl⟩, trivial, trivial, trivial, trivial, trivial, trivial,
      ⟨by decide, fun _ _ => .inr (.inr fun e he => ?_)⟩, trivial, trivial, trivial, trivial⟩
    have heq : e ∈ [(⟨0, "10.0.0.1:3500", 0, "app", "default", ["t"]⟩ : HostEntry)] := he
    rw [mem_singleton.1 heq]
    decide
  exact ⟨rfl, rfl, sidecars_agree_of_meets (i := 0) (j := 1) (t := "t") hreached ⟨by decide, rfl⟩ ⟨by decide, rfl⟩
    (by decide) (by decide) rfl rfl⟩

/-- A second host of the type joins, and while its round waits for the LOCKs the client
reports again. -/
def pushEvents : List Event :=
  [.add ⟨"10.0.0.2:3500", 0, "other", "default", ["t"]⟩, .report 1 ⟨"10.0.0.3:3500", 0, "client", "default", []⟩,
   .deliver 1, .deliver 1, .deliver 1, .deliver 1, .deliver 1, .deliver 1, .deliver 1]

/-- The client is pushed the table with both hosts, the first host still routes by its own. -/
theorem pushed_during_round :
    let n := (new 0).run (joinEvents ++ pushEvents)
    (new 0).EachIn Allowed (joinEvents ++ pushEvents) ∧ n.Connected 0 ∧ n.Connected 1 ∧
      "t" ∉ (n.sidecar 0).blockedTypes ∧ "t" ∉ (n.sidecar 1).blockedTypes ∧
      ∃ a b, (n.sidecar 0).entries.lookup "t" = some a ∧ (n.sidecar 1).entries.lookup "t" = some b ∧ ¬ Same a b := by
  have hallowed : ((new 0).run joinEvents).EachIn Allowed pushEvents :=
    ⟨trivial, show 1 < 3 by decide, trivial, trivial, trivial, trivial, trivial, trivial, trivial, trivial⟩
  refine ⟨joinEvents_allowed hallowed, ⟨by decide, rfl⟩, ⟨by decide, rfl⟩, by decide, by decide, _, _, rfl, rfl, ?_⟩
  intro hsame
  have hlookup := hsame "10.0.0.2:3500"
  revert hlookup
  decide

end Namespace

end Dapr.Placement
