import Dapr.Placement.Counter
/-!
# The timeout of a round

A timeout closes the streams that are not in the state of the phase. It is queued when its time is
up and only its version is compared when it is handled, so it may come when the round is already
over: the state of all streams is then UNLOCK while the disseminator is at REPORT, and all of them
are closed. During a round a stream is closed whose ack is still queued, or was not counted.

A stream acknowledges its orders one after the other, and the disseminator handles the acks in that
order.
-/

namespace Dapr.Placement

open Function List

variable (ranges : Ranges) {i : Nat}

namespace Disseminator

/-! ## What was sent -/

/-- Orders went to streams only, with versions up to the current one. -/
structure Sent (d : Disseminator) : Prop where
  unsent : ∀ i, d.streamIDx ≤ i → d.orders i = []
  versions : ∀ i, ∀ o ∈ d.orders i, o.version ≤ d.currentVersion
  loops : ∀ i version, d.loopVersion i = some version → version ≤ d.currentVersion

/-- A stream in a round, with the number of its acks that have been handled: it was sent the order of the phase last, and
is in the state of the phase if the ack of that order was handled. -/
structure View (d : Disseminator) (heard i : Nat) : Prop where
  loop : d.loopVersion i = some d.currentVersion
  alone : (d.conns i).receivingTable = none
  last : ∃ o, (d.orders i).getLast? = some o ∧ o.op.hostOperation = d.currentOperation ∧ o.version = d.currentVersion
  earlier : d.currentOperation = .lock → ∀ o ∈ (d.orders i).dropLast, o.version < d.currentVersion
  due : d.currentOperation ≠ .lock → (d.orders i).length ≤ heard + 1
  state : (d.conns i).currentState = d.currentOperation ↔ heard = (d.orders i).length

/-- Of each stream it is known how many acks were handled, and the good ones are followed in a round. -/
structure Tracked (good : Nat → Prop) (heard : Nat → Nat) (d : Disseminator) : Prop extends Books d, Sent d where
  heard_le : ∀ i, heard i ≤ (d.orders i).length
  views : d.currentOperation ≠ .report → ∀ i ∈ d.streams, good i → View d (heard i) i

variable {good good' : Nat → Prop} {heard : Nat → Nat} {d : Disseminator}

section Same
variable {d' : Disseminator} {n : Nat}

theorem View.congr (h : View d n i) (hop : d'.currentOperation = d.currentOperation)
    (hversion : d'.currentVersion = d.currentVersion) (hloop : d'.loopVersion i = d.loopVersion i)
    (horders : d'.orders i = d.orders i) (hconn : d'.conns i = d.conns i) : View d' n i := by
  constructor <;> simp only [hop, hversion, hloop, horders, hconn]
  exacts [h.loop, h.alone, h.last, h.earlier, h.due, h.state]

/-- What is sent to the streams is of the current version. -/
theorem Sent.send (h : Sent d) (sent : Nat → List Order) (hidx : d'.streamIDx = d.streamIDx)
    (hversion : d.currentVersion ≤ d'.currentVersion) (horders : ∀ i, d'.orders i = d.orders i ++ sent i)
    (hsent : ∀ i, ∀ o ∈ sent i, i < d.streamIDx ∧ o.version ≤ d'.currentVersion)
    (hloops : ∀ i version, d'.loopVersion i = some version → version ≤ d'.currentVersion) : Sent d' := by
  refine ⟨fun i hi => ?_, fun i o ho => ?_, hloops⟩
  · rw [hidx] at hi
    rw [horders, h.unsent i hi, nil_append]
    exact eq_nil_iff_forall_not_mem.2 fun o ho => Nat.not_lt.2 hi (hsent i o ho).1
  · rw [horders] at ho
    rcases mem_append.1 ho with hold | hnew
    · exact Nat.le_trans (h.versions i o hold) hversion
    · exact (hsent i o hnew).2

theorem Sent.later (h : Sent d) : Sent { d with currentVersion := d.currentVersion + 1 } where
  unsent := h.unsent
  versions i o ho := Nat.le_succ_of_le (h.versions i o ho)
  loops i version hv := Nat.le_succ_of_le (h.loops i version hv)

end Same

theorem Tracked.mono (h : Tracked good heard d) (hsub : ∀ i ∈ d.streams, good' i → good i) : Tracked good' heard d :=
  { h with views := fun hop i hi hg => h.views hop i hi (hsub i hi hg) }

/-- Changes of the queues and of the store. -/
theorem Tracked.congr {d' : Disseminator} (h : Tracked good heard d) (hsame : d' = { d with
      store := d'.store, waitingToDelete := d'.waitingToDelete, waitingToDisseminate := d'.waitingToDisseminate,
      coalesceTimer := d'.coalesceTimer }) : Tracked good heard d' := by
  rw [hsame]
  exact { h with
    toBooks := { h.toBooks with }
    toSent := { h.toSent with }
    views := fun hop i hi hg => { h.views hop i hi hg with } }

theorem Tracked.idle (hbooks : Books d) (hsent : Sent d) (hheard : ∀ i, heard i ≤ (d.orders i).length)
    (hop : d.currentOperation = .report) : Tracked good heard d :=
  { toBooks := hbooks, toSent := hsent, heard_le := hheard, views := fun hne => absurd hop hne }

/-! ## Rounds -/

theorem Tracked.lockAll (hnodup : d.streams.Nodup) (hlt : ∀ i ∈ d.streams, i < d.streamIDx)
    (hzero : d.streamsInTargetState = 0) (hsent : Sent d)
    (hversions : ∀ i, ∀ o ∈ d.orders i, o.version < d.currentVersion)
    (hheard : ∀ i, heard i ≤ (d.orders i).length) : Tracked good heard d.lockAll := by
  have hpasses : ∀ i, d.passesLock i d.currentVersion = true := by
    intro i
    unfold passesLock
    cases hl : d.loopVersion i with
    | none => rfl
    | some version => simpa using hsent.loops i version hl
  have horders : ∀ i, d.lockAll.orders i =
      d.orders i ++ if i ∈ d.streams then [Order.lock d.currentVersion] else [] := by
    intro i
    simp [Disseminator.lockAll, disseminateLock, send, hpasses]
  have hloop : ∀ i, d.lockAll.loopVersion i = if i ∈ d.streams then some d.currentVersion else d.loopVersion i := by
    intro i
    simp [Disseminator.lockAll, disseminateLock, hpasses]
  refine { toBooks := (Books.lockAll hnodup hlt hzero).toBooks, heard_le := ?_, views := ?_
           toSent := hsent.send _ rfl le_rfl horders (fun i o ho => ?_) fun i version hv => ?_ }
  · obtain ⟨rfl, hi⟩ := mem_sent ho
    exact ⟨hlt i hi, le_rfl⟩
  · rw [hloop] at hv
    split at hv
    · rw [← Option.some.inj hv]
      exact le_rfl
    · exact hsent.loops i version hv
  · intro i
    rw [horders, length_append]
    exact Nat.le_add_right_of_le (hheard i)
  · intro _ i hi _
    have hi : i ∈ d.streams := hi
    have hsent : d.lockAll.orders i = d.orders i ++ [Order.lock d.currentVersion] := by rw [horders, if_pos hi]
    have hconn : d.lockAll.conns i = ⟨.report, none⟩ := by simp [Disseminator.lockAll, hi]
    refine ⟨by rw [hloop, if_pos hi]; rfl, by rw [hconn], ?_, fun _ o ho => ?_, fun hne => absurd rfl hne, ?_⟩
    · exact ⟨.lock d.currentVersion, by simp [hsent], rfl, rfl⟩
    · rw [hsent, dropLast_concat] at ho
      exact hversions i o ho
    · have := hheard i
      rw [hconn, hsent]
      constructor
      · intro hstate
        cases hstate
      · intro hlen
        simp at hlen
        omega

section
variable (h : Tracked good heard d)
include h

theorem Tracked.startRound : Tracked good' heard d.startRound :=
  Tracked.lockAll h.nodup h.streams_lt rfl { h.toSent.later with }
    (fun i o ho => Nat.lt_succ_of_le (h.versions i o ho)) h.heard_le

/-- All streams have reached the state of the phase, and are sent the order of the next one. -/
theorem Tracked.enter {op : HostOperation} {f : Nat → Order} (hop : d.currentOperation ≠ .report)
    (hall : ∀ i ∈ d.streams, (d.conns i).currentState = d.currentOperation)
    (hf : ∀ i, (f i).op.hostOperation = op ∧ (f i).version = d.currentVersion) (hnext : op ≠ d.currentOperation)
    (hknown : op ≠ .unknown) (hlock : op ≠ .lock) : Tracked good heard (d.enter op f) := by
  refine { toBooks := (h.toBooks.enter hall hknown hnext f).toBooks, heard_le := fun i => ?_, views := ?_
           toSent := h.toSent.send _ rfl le_rfl (fun _ => rfl) (fun i o ho => ?_) h.loops }
  · obtain ⟨rfl, hi⟩ := mem_sent ho
    exact ⟨h.streams_lt i hi.1, (hf i).2.le⟩
  · show heard i ≤ (d.orders i ++ _).length
    rw [length_append]
    exact Nat.le_add_right_of_le (h.heard_le i)
  · intro _ i hi hg
    have hview := h.views hop i hi hg
    have hheard : heard i = (d.orders i).length := hview.state.1 (hall i hi)
    have hsent : (d.enter op f).orders i = d.orders i ++ [f i] := congrArg _ (if_pos ⟨hi, hview.loop⟩)
    refine ⟨hview.loop, hview.alone, ⟨f i, by simp [hsent], hf i⟩, fun hl => absurd hl hlock, fun _ => ?_, ?_⟩
    · rw [hsent, length_append, length_singleton, hheard]
    · exact iff_of_false (fun heq => hnext (heq.symm.trans (hall i hi))) (by simp [hsent, hheard])

/-! ## Streams -/

theorem Tracked.addStream (hout : d.currentOperation = .report ∨ ∀ i, d.streamIDx ≤ i → ¬good i) :
    Tracked good heard d.addStream := by
  have hold : ∀ i, i ≠ d.streamIDx → d.addStream.loopVersion i = d.loopVersion i ∧ d.addStream.conns i = d.conns i :=
    fun i hi => ⟨update_of_ne hi _ _, update_of_ne hi _ _⟩
  refine { toBooks := h.toBooks.sound.addStream.toBooks, unsent := ?_, versions := h.versions, loops := ?_,
           heard_le := h.heard_le, views := ?_ }
  · exact fun i hi => h.unsent i (Nat.le_of_succ_le hi)
  · intro i version hv
    by_cases hi : i = d.streamIDx
    · subst hi
      simp [Disseminator.addStream] at hv
    · exact h.loops i version ((hold i hi).1 ▸ hv)
  · intro hop i hi hg
    have hi' : i ≠ d.streamIDx := by
      rintro rfl
      exact hout.elim hop fun hnot => hnot _ le_rfl hg
    have hmem : i ∈ d.streams := by simpa [Disseminator.addStream, hi'] using hi
    exact (h.views hop i hmem hg).congr rfl rfl (hold i hi').1 rfl (hold i hi').2

theorem Tracked.addWaiting (waiting : List Host)
    (hout : d.currentOperation = .report ∨ ∀ i, d.streamIDx ≤ i → ¬good i) :
    Tracked good heard (d.addWaiting waiting).1 ∧
      (d.addWaiting waiting).1.currentOperation = d.currentOperation := by
  induction waiting generalizing d with
  | nil => exact ⟨h, rfl⟩
  | cons host waiting ih =>
    refine ih ((h.addStream hout).congr rfl) ?_
    exact hout.imp id fun hnot i hi => hnot i (Nat.le_of_succ_le hi)

theorem Tracked.dropStream (hi : i ∈ d.streams) : Tracked good heard (d.dropStream i) := by
  refine { toBooks := h.toBooks.dropStream hi, toSent := { h.toSent with }, heard_le := h.heard_le,
           views := fun hop j hj hg => ?_ }
  exact { h.views hop j (mem_filter.1 hj).1 hg with }

theorem Tracked.disseminateTable (hi : i ∈ d.streams)
    (hout : d.currentOperation = .report ∨ ¬good i) : Tracked good heard (d.disseminateTable ranges i) := by
  have horders : ∀ j, j ≠ i → (d.disseminateTable ranges i).orders j = d.orders j := by
    intro j hj
    simp [Disseminator.disseminateTable, send, hj]
  have hconns : ∀ j, j ≠ i → (d.disseminateTable ranges i).conns j = d.conns j := fun j hj =>
    update_of_ne hj _ _
  refine { toBooks := (h.toBooks.sound.disseminateTable ranges i).toBooks, heard_le := ?_, views := ?_
           toSent := h.toSent.send _ rfl le_rfl (fun _ => rfl) (fun j o ho => ?_) h.loops }
  · split at ho
    · next hj =>
      simp only [mem_cons, not_mem_nil, or_false] at ho
      rcases ho with rfl | rfl | rfl <;> exact ⟨hj ▸ h.streams_lt i hi, le_rfl⟩
    · cases ho
  · intro j
    show heard j ≤ (d.orders j ++ _).length
    rw [length_append]
    exact Nat.le_add_right_of_le (h.heard_le j)
  · intro hop j hj hg
    have hji : j ≠ i := by
      rintro rfl
      exact hout.elim hop fun hnot => hnot hg
    exact (h.views hop j hj hg).congr rfl rfl rfl (horders j hji) (hconns j hji)

theorem Tracked.pushAll (hop : d.currentOperation = .report)
    (pushed : List Nat) (hpushed : ∀ i ∈ pushed, i ∈ d.streams) :
    Tracked good heard (pushed.foldl (Disseminator.disseminateTable ranges) d) := by
  induction pushed generalizing d with
  | nil => exact h
  | cons i pushed ih =>
    obtain ⟨hi, hrest⟩ := forall_mem_cons.1 hpushed
    exact ih (h.disseminateTable ranges hi (.inl hop)) hop hrest

/-! ## Between rounds -/

theorem Tracked.applyDeletes : Tracked good heard d.applyDeletes :=
  h.congr rfl

theorem Tracked.processWaitingDeletes : Tracked good heard d.processWaitingDeletes := by
  unfold Disseminator.processWaitingDeletes
  split
  · exact h
  · exact h.applyDeletes.startRound

/-- Streams that waited join during a round only if they start another one. -/
theorem Tracked.processWaitingDisseminate {force : Bool}
    (hround : d.currentOperation = .report ∨ d.waitingToDisseminate = [] ∨ force = true) :
    Tracked good heard (d.processWaitingDisseminate ranges force) := by
  unfold Disseminator.processWaitingDisseminate
  split
  · exact h
  · next hne =>
    dsimp only
    split
    · -- the new round follows all streams, so none has to be followed before
      have hnone : Tracked (fun _ => False) heard { d with waitingToDisseminate := [] } :=
        (h.mono fun _ _ => False.elim).congr rfl
      exact (hnone.addWaiting d.waitingToDisseminate (.inr fun _ _ => id)).1.startRound
    · next hstarts =>
      have hop : d.currentOperation = .report := by
        rcases hround with hop | hnil | hforce
        · exact hop
        · exact absurd hnil hne
        · exact absurd (.inl hforce) hstarts
      have hwaiting : Tracked good heard { d with waitingToDisseminate := [] } := h.congr rfl
      obtain ⟨hadd, hop'⟩ := hwaiting.addWaiting d.waitingToDisseminate (.inl hop)
      refine hadd.pushAll ranges (hop'.trans hop) _ fun i hi => ?_
      simp only [mem_filter, decide_eq_true_eq] at hi
      exact hi.2.1

theorem Tracked.finishRound (hop : d.currentOperation = .report) : Tracked good heard (d.finishRound ranges) := by
  unfold Disseminator.finishRound
  split
  · unfold Disseminator.startCoalesceTimer
    split
    · exact h
    · exact h.congr rfl
  · split
    · exact h.processWaitingDeletes
    · exact h.processWaitingDisseminate ranges (.inl hop)

theorem Tracked.endRound (waitingToDelete : List Nat) : Tracked good heard (Disseminator.finishRound ranges
      { d with currentOperation := .report, streamsInTargetState := 0, waitingToDelete := waitingToDelete }) := by
  have hbooks : Sound False
      { d with currentOperation := .report, streamsInTargetState := 0, waitingToDelete := waitingToDelete } :=
    Books.idle h.nodup h.streams_lt rfl
  exact (Tracked.idle hbooks.toBooks ⟨h.unsent, h.versions, h.loops⟩ h.heard_le rfl).finishRound ranges rfl

end

/-! ## Acks -/

section Ack
variable {heard' : Nat → Nat} {i : Nat}

theorem Tracked.heard_le_of_other (h : Tracked good heard d) (hother : ∀ j, j ≠ i → heard' j = heard j)
    (hle : heard' i ≤ (d.orders i).length) (j : Nat) : heard' j ≤ (d.orders j).length := by
  by_cases hj : j = i
  · exact hj ▸ hle
  · exact hother j hj ▸ h.heard_le j

theorem Tracked.unfollowed (h : Tracked good heard d) (hother : ∀ j, j ≠ i → heard' j = heard j)
    (hle : heard' i ≤ (d.orders i).length) (hout : d.currentOperation ≠ .report → i ∈ d.streams → ¬good i) :
    Tracked good heard' d := by
  refine { toBooks := h.toBooks, toSent := h.toSent, heard_le := h.heard_le_of_other hother hle, views := ?_ }
  intro hop j hj hg
  rw [hother j fun heq => hout hop (heq ▸ hj) (heq ▸ hg)]
  exact h.views hop j hj hg

theorem reach_sent (d : Disseminator) (i : Nat) (op : HostOperation) :
    (d.reach i op).orders = d.orders ∧ (d.reach i op).loopVersion = d.loopVersion ∧
      (d.reach i op).currentVersion = d.currentVersion := by
  unfold Disseminator.reach
  split <;> exact ⟨rfl, rfl, rfl⟩

/-- A stream reaches the state of the phase. If it is followed, its last ack is heard. -/
theorem Tracked.reach (h : Tracked good heard d) (hi : i ∈ d.streams) (hop : d.currentOperation ≠ .report)
    (hother : ∀ j, j ≠ i → heard' j = heard j) (hle : heard' i ≤ (d.orders i).length)
    (hall : good i → heard' i = (d.orders i).length) : Tracked good heard' (d.reach i d.currentOperation) := by
  obtain ⟨hop', hstreams, hidx, -⟩ := reach_fields d i d.currentOperation
  obtain ⟨horders, hloops, hversion⟩ := reach_sent d i d.currentOperation
  refine { toBooks := h.toBooks.reach hi hop, unsent := ?_, versions := ?_, loops := ?_, heard_le := ?_, views := ?_ }
  · rw [hidx, horders]
    exact h.unsent
  · rw [horders, hversion]
    exact h.versions
  · rw [hloops, hversion]
    exact h.loops
  · rw [horders]
    exact h.heard_le_of_other hother hle
  · intro _ j hj hg
    rw [hstreams] at hj
    have hview := h.views hop j hj hg
    by_cases hji : j = i
    · subst hji
      obtain ⟨hloop, halone, hlast, hearlier, -, -⟩ := hview
      have hconn : (d.reach j d.currentOperation).conns j = { d.conns j with currentState := d.currentOperation } := by
        unfold Disseminator.reach
        split
        · exact update_self _ _ _
        · next heq => rw [← not_not.1 heq]
      constructor
      · rwa [hloops, hversion]
      · rwa [hconn]
      · rwa [horders, hop', hversion]
      · rwa [horders, hop', hversion]
      · intro _
        rw [horders, hall hg]
        exact Nat.le_succ _
      · rw [hconn, horders, hop']
        exact iff_of_true rfl (hall hg)
    · rw [hother j hji]
      exact hview.congr hop' hversion (congrFun hloops j) (congrFun horders j) (reach_conns hji)

/-- All streams are in the state of the phase. -/
theorem Tracked.endPhase (h : Tracked good heard d) (gone : List Nat)
    (hop : d.currentOperation ≠ .report) (hfull : (d.streams.length : Int) ≤ d.streamsInTargetState) :
    Tracked good heard (d.endPhase ranges gone) := by
  have hall := h.all_reached hop hfull
  unfold Disseminator.endPhase
  cases hcase : d.currentOperation with
  | unknown | report => exact h
  | lock | update => exact h.enter hop hall (fun _ => ⟨rfl, rfl⟩) (by simp [hcase]) (by decide) (by decide)
  | unlock => exact h.endRound ranges _

/-- The last stream has reached the state of the phase. -/
theorem Tracked.phaseAck (h : Tracked good heard (d.reach i d.currentOperation))
    (hop : d.currentOperation ≠ .report)
    (hfull : (d.reach i d.currentOperation).streamsInTargetState = d.streams.length) (gone : List Nat) :
    Tracked good heard ((d.reach i d.currentOperation).endPhase ranges gone) := by
  obtain ⟨hop', hstreams, -⟩ := reach_fields d i d.currentOperation
  exact h.endPhase ranges gone (by rwa [hop']) (by rw [hstreams, hfull])

theorem Tracked.answered (h : Tracked good heard d) (hout : d.currentOperation ≠ .report → i ∈ d.streams → ¬good i) :
    Tracked good heard (d.answered i) := by
  refine { toBooks := (h.toBooks.sound.answered i).toBooks, toSent := { h.toSent with }, heard_le := h.heard_le,
           views := fun hop j hj hg => ?_ }
  have hne : j ≠ i := fun heq => hout hop (heq ▸ hj) (heq ▸ hg)
  exact (h.views hop j hj hg).congr rfl rfl rfl rfl (update_of_ne hne _ _)

theorem Tracked.ackUnfollowed (h : Tracked good heard d) (ranges : Ranges) {report : ReportedHost}
    (hack : d.operationOf report ≠ .report)
    (hout : d.currentOperation ≠ .report → report.streamIDx ∈ d.streams → ¬good report.streamIDx) :
    Tracked good heard (d.handleReportedHost ranges report) := by
  have hreach : ∀ hi : report.streamIDx ∈ d.streams, d.currentOperation ≠ .report →
      Tracked good heard (d.reach report.streamIDx d.currentOperation) := fun hi hop =>
    h.reach hi hop (fun _ _ => rfl) (h.heard_le _) fun hg => absurd hg (hout hop hi)
  have hnext := handled ranges d report
  generalize d.handleReportedHost ranges report = d' at hnext ⊢
  cases hnext with
  | same => exact h
  | answered => exact h.answered hout
  | reported _ hreport => exact absurd hreport hack
  | reached hi _ _ hop => exact hreach hi hop
  | ended hi _ _ hop hfull => exact (hreach hi hop).phaseAck ranges hop hfull _

def ackOfOrder (i : Nat) (o : Order) (host : Host) : ReportedHost := ⟨i, o.op.hostOperation, some o.version, host⟩

theorem hostOperation_ne (op : OrderOp) : op.hostOperation ≠ .unknown ∧ op.hostOperation ≠ .report := by
  cases op <;> exact ⟨HostOperation.noConfusion, HostOperation.noConfusion⟩

theorem operationOf_ackOfOrder (d : Disseminator) (i : Nat) (o : Order) (host : Host) :
    d.operationOf (ackOfOrder i o host) = o.op.hostOperation := if_neg (hostOperation_ne o.op).1

/-- A stream that is followed acknowledges its last order, or one of an earlier round. -/
theorem Tracked.ackFollowed (h : Tracked good heard d) (ranges : Ranges) (hop : d.currentOperation ≠ .report)
    (hi : i ∈ d.streams) (hg : good i) {o : Order} (ho : (d.orders i)[heard i]? = some o) (host : Host) :
    Tracked good (update heard i (heard i + 1)) (d.handleReportedHost ranges (ackOfOrder i o host)) := by
  obtain ⟨hloop, halone, ⟨last, hlast, hlastOp, hlastVersion⟩, hearlier, hdue, hstate⟩ := h.views hop i hi hg
  obtain ⟨hlt, hget⟩ := List.getElem?_eq_some_iff.1 ho
  have hother : ∀ j, j ≠ i → update heard i (heard i + 1) j = heard j := fun j hj =>
    update_of_ne hj _ _
  have hself : update heard i (heard i + 1) i = heard i + 1 := update_self _ _ _
  have hle : update heard i (heard i + 1) i ≤ (d.orders i).length := by rwa [hself]
  by_cases hend : heard i + 1 = (d.orders i).length
  · obtain rfl : o = last := by
      rw [getLast?_eq_getElem?, ← hend, Nat.add_sub_cancel, ho] at hlast
      exact Option.some.inj hlast
    have hack : d.operationOf (ackOfOrder i o host) = d.currentOperation :=
      (operationOf_ackOfOrder d i o host).trans hlastOp
    have hreach := h.reach hi hop hother hle fun _ => hself.trans hend
    have hnext := handled ranges d (ackOfOrder i o host)
    generalize d.handleReportedHost ranges (ackOfOrder i o host) = d' at hnext ⊢
    cases hnext with
    | same hsame =>
      rcases hsame with hold | ⟨-, hgone | hreceiving | hne | hunknown⟩
      · simp [isOld, ackOfOrder, hlastVersion] at hold
      · exact absurd hi hgone
      · exact absurd halone hreceiving
      · exact absurd hack hne
      · exact absurd hunknown h.known
    | answered _ hreceiving => exact absurd halone hreceiving
    | reported _ hreport => exact absurd (hack.symm.trans hreport) hop
    | reached => exact hreach
    | ended _ _ _ _ hfull => exact hreach.phaseAck ranges hop hfull _
  · have hlock : d.currentOperation = .lock := Classical.byContradiction fun hne => by
      have := hdue hne
      omega
    have hold : d.isOld (ackOfOrder i o host).version = true := by
      have hmem : o ∈ (d.orders i).dropLast := by
        rw [← hget, mem_iff_getElem]
        exact ⟨heard i, by rw [length_dropLast]; omega, by simp⟩
      simpa [isOld, ackOfOrder] using hearlier hlock o hmem
    have hsame : d.handleReportedHost ranges (ackOfOrder i o host) = d := if_pos hold
    rw [hsame]
    refine { toBooks := h.toBooks, toSent := h.toSent, heard_le := h.heard_le_of_other hother hle, views := ?_ }
    intro _ j hj hgj
    by_cases hji : j = i
    · subst hji
      rw [hself]
      refine ⟨hloop, halone, ⟨last, hlast, hlastOp, hlastVersion⟩, hearlier, fun hne => absurd hlock hne, ?_⟩
      exact iff_of_false (fun heq => absurd (hstate.1 heq) (Nat.ne_of_lt hlt)) hend
    · rw [hother j hji]
      exact h.views hop j hj hgj

theorem Tracked.hear (h : Tracked good heard d) (ranges : Ranges) {o : Order}
    (ho : (d.orders i)[heard i]? = some o) (host : Host) :
    Tracked good (update heard i (heard i + 1)) (d.handleReportedHost ranges (ackOfOrder i o host)) := by
  by_cases hfollowed : d.currentOperation ≠ .report ∧ i ∈ d.streams ∧ good i
  · exact h.ackFollowed ranges hfollowed.1 hfollowed.2.1 hfollowed.2.2 ho host
  · have hout : d.currentOperation ≠ .report → i ∈ d.streams → ¬good i := fun hop hi hg => hfollowed ⟨hop, hi, hg⟩
    obtain ⟨hlt, -⟩ := List.getElem?_eq_some_iff.1 ho
    refine Tracked.ackUnfollowed ?_ ranges ?_ hout
    · exact h.unfollowed (fun j hj => update_of_ne hj _ _) (by rwa [update_self]) hout
    · rw [operationOf_ackOfOrder]
      exact (hostOperation_ne o.op).2

end Ack

/-! ## Reports -/

/-- A table is not pushed to a stream in the middle of a round. -/
def PushedOutside (d : Disseminator) (i : Nat) (host : Host) : Prop :=
  d.currentOperation = .report ∨ i ∉ d.streams ∨ d.store.hostChanged i host = true ∨ d.store.has i = true

section
variable (h : Tracked good heard d)
include h

theorem Tracked.doReport {host : Host}
    (hout : good i → d.PushedOutside i host) : Tracked good heard (d.doReport ranges i host) := by
  by_cases hchanged : d.store.hostChanged i host = true
  · rw [doReport_of_changed ranges hchanged]
    have hstore : Tracked good heard { d with store := (d.store.set i host).2 } := h.congr rfl
    exact hstore.startRound
  · have hset : (d.store.set i host).1 ≠ true := fun hs => hchanged ((Store.set_fst _ _ _).symm.trans hs)
    simp only [Disseminator.doReport]
    rw [if_neg hset]
    split
    · next hpush =>
      refine h.disseminateTable ranges hpush.1 (or_iff_not_imp_right.2 fun hg => ?_)
      rcases hout (not_not.1 hg) with hop | hgone | hnew | hhas
      · exact hop
      · exact absurd hpush.1 hgone
      · exact absurd hnew hchanged
      · rw [hpush.2] at hhas
        cases hhas
    · exact h

theorem Tracked.report (ranges : Ranges) {report : ReportedHost} (hreport : d.operationOf report = .report)
    (hout : good report.streamIDx → d.PushedOutside report.streamIDx report.host) :
    Tracked good heard (d.handleReportedHost ranges report) := by
  have hnext := handled ranges d report
  generalize d.handleReportedHost ranges report = d' at hnext ⊢
  cases hnext with
  | same => exact h
  | answered hack => exact absurd hreport hack
  | reported => exact h.doReport ranges hout
  | reached _ _ hsame hop | ended _ _ hsame hop => exact absurd (hsame.symm.trans hreport) hop

/-! ## Events -/

theorem Tracked.handleAdd (host : Host) : Tracked good heard (d.handleAdd ranges host) := by
  unfold Disseminator.handleAdd
  split
  · exact h.congr rfl
  · next hidle =>
    have hop : d.currentOperation = .report := Classical.byContradiction fun hne => hidle (.inl hne)
    have horphans : Tracked good heard
        { d.applyDeletes with waitingToDelete := d.applyDeletes.store.collectOrphans d.applyDeletes.streams } :=
      h.applyDeletes.congr rfl
    exact (horphans.applyDeletes.addStream (.inl hop)).report ranges rfl fun _ => .inl hop

theorem Tracked.handleCloseStream (i : Nat) : Tracked good heard (d.handleCloseStream ranges i) := by
  unfold Disseminator.handleCloseStream
  split
  · exact h
  · next hi =>
    have hdrop := h.dropStream (not_not.1 hi)
    dsimp only
    split
    · exact hdrop
    · split
      · exact hdrop
      · have hqueue : Tracked good heard
            { d.dropStream i with waitingToDelete := (d.dropStream i).waitingToDelete ++ [i] } :=
          hdrop.congr rfl
        split
        · next hop =>
          split
          · next hfull =>
            rw [advancePhase_eq]
            · exact hqueue.endPhase ranges [] hop hfull
            · exact hfull
          · exact hqueue
        · split
          · exact hqueue
          · exact hqueue.processWaitingDeletes

/-- After a timeout all streams that are left are in a new round. -/
theorem Tracked.handleTimeout (version : Nat) : Tracked good heard (d.handleTimeout version) := by
  by_cases hcurrent : version = d.currentVersion
  · subst hcurrent
    rw [handleTimeout_current]
    have hevict : Tracked good heard d.evict :=
      Tracked.idle (h.toBooks.evict : Sound False _).toBooks { h.toSent.later with } h.heard_le rfl
    obtain ⟨hadd, -⟩ := hevict.addWaiting d.waitingToDisseminate (.inl rfl)
    obtain ⟨hversion, horders, hzero⟩ := addWaiting_fields d.evict d.waitingToDisseminate
    dsimp only
    split
    · exact hadd
    · refine Tracked.lockAll hadd.nodup hadd.streams_lt hzero hadd.toSent (fun i o ho => ?_) hadd.heard_le
      rw [horders] at ho
      rw [hversion]
      exact Nat.lt_succ_of_le (h.versions i o ho)
  · rw [handleTimeout_other hcurrent]
    exact h

/-- Streams that waited do not join in the middle of a round. -/
def JoinedOutside (d : Disseminator) : Prop :=
  d.currentOperation = .report ∨ d.waitingToDisseminate = [] ∨ d.waitingToDelete ≠ []

theorem Tracked.handleCoalesceFire (hout : d.JoinedOutside) : Tracked good heard (d.handleCoalesceFire ranges) := by
  unfold Disseminator.handleCoalesceFire
  have hfired : Tracked good heard { d with coalesceTimer := false } := h.congr rfl
  dsimp only
  split
  · exact hfired.processWaitingDeletes
  · exact hfired.applyDeletes.processWaitingDisseminate ranges (hout.imp_right (Or.imp_right decide_eq_true))

end

/-- The streams that a timeout leaves. -/
theorem mem_handleTimeout (h : Books d) (hi : i ∈ d.streams) (version : Nat) :
    i ∈ (d.handleTimeout version).streams ↔
      (version = d.currentVersion → (d.conns i).currentState = d.currentOperation) := by
  by_cases hcurrent : version = d.currentVersion
  · subst hcurrent
    obtain ⟨added, hadded, -, hlater⟩ := addWaiting_streams d.evict d.waitingToDisseminate
    have hstreams : (d.handleTimeout d.currentVersion).streams = d.evict.streams ++ added := by
      rw [handleTimeout_current, ← hadded]
      dsimp only
      split <;> rfl
    have hnew : i ∉ added := fun hin => absurd (h.streams_lt i hi) (Nat.not_lt.2 (hlater i hin))
    rw [hstreams, mem_append, or_iff_left hnew]
    simp [evict, Disseminator.applyDeletes, hi]
  · rw [handleTimeout_other hcurrent]
    exact iff_of_true hi fun heq => absurd heq hcurrent

end Disseminator

/-! ## Streams and their acks -/

/-- The disseminator, and for each stream how many of its orders it has acknowledged, how many of these acks were handled,
and whether it has sent anything else than reports and the acks of its orders. -/
structure Session where
  server : Disseminator
  answered : Nat → Nat
  heard : Nat → Nat
  astray : Nat → Bool

/-- A timeout may be handled at any time. -/
inductive Signal where
  | add (initialHost : Host)
  | report (streamIDx : Nat) (host : Host)
  | answer (streamIDx : Nat)
  | hear (streamIDx : Nat) (host : Host)
  | stray (report : ReportedHost)
  | close (streamIDx : Nat)
  | timeout (version : Nat)
  | coalesceFire

namespace Session

open Disseminator

def new (coalesceWindow : Int) : Session := ⟨.new coalesceWindow, fun _ => 0, fun _ => 0, fun _ => false⟩

def handle (ranges : Ranges) (s : Session) : Signal → Session
  | .add initialHost => { s with server := s.server.handleAdd ranges initialHost }
  | .report i host => { s with server := s.server.handleReportedHost ranges ⟨i, .report, none, host⟩ }
  | .answer i =>
    { s with answered := update s.answered i (min (s.answered i + 1) (s.server.orders i).length) }
  | .hear i host =>
    match (s.server.orders i)[s.heard i]? with
    | none => s
    | some o =>
      if s.heard i < s.answered i then
        { s with
          server := s.server.handleReportedHost ranges (ackOfOrder i o host)
          heard := update s.heard i (s.heard i + 1) }
      else s
  | .stray report =>
    { s with
      server := s.server.handleReportedHost ranges report
      astray := update s.astray report.streamIDx true }
  | .close i => { s with server := s.server.handleCloseStream ranges i }
  | .timeout version => { s with server := s.server.handleTimeout version }
  | .coalesceFire => { s with server := s.server.handleCoalesceFire ranges }

/-- No stream joins or is pushed a table in the middle of a round. -/
def Calm (s : Session) : Signal → Prop
  | .report i host => s.astray i = false → s.server.PushedOutside i host
  | .coalesceFire => s.server.JoinedOutside
  | _ => True

/-- The acks that were sent are followed for no stream: only their number is bounded. -/
structure Inv (s : Session) : Prop where
  tracked : Tracked (fun i => s.astray i = false) s.heard s.server
  sent : Tracked (fun _ => False) s.answered s.server
  heard_le : ∀ i, s.heard i ≤ s.answered i

variable {s : Session}

theorem Inv.new (coalesceWindow : Int) : Inv (new coalesceWindow) := by
  have hbooks : Sound False (Disseminator.new coalesceWindow) := Books.idle .nil (by simp [Disseminator.new]) rfl
  have hsent : Sent (Disseminator.new coalesceWindow) := by constructor <;> simp [Disseminator.new]
  exact ⟨.idle hbooks.toBooks hsent (fun _ => Nat.zero_le _) rfl,
    .idle hbooks.toBooks hsent (fun _ => Nat.zero_le _) rfl, fun _ => le_rfl⟩

theorem Inv.answer (h : Inv s) (i : Nat) : Inv (s.handle ranges (.answer i)) := by
  refine ⟨h.tracked, h.sent.unfollowed (fun j hj => update_of_ne hj _ _) ?_ fun _ _ => id, fun j => ?_⟩
  · simp only [handle, update_self]
    exact Nat.min_le_right _ _
  · by_cases hj : j = i
    · subst hj
      have := h.heard_le j
      have := h.tracked.heard_le j
      simp only [handle, update_self]
      omega
    · simpa [handle, hj] using h.heard_le j

theorem Inv.hear (h : Inv s) (ranges : Ranges) (i : Nat) (host : Host) : Inv (s.handle ranges (.hear i host)) := by
  simp only [handle]
  split
  · exact h
  · next o ho =>
    split
    · next hlt =>
      refine ⟨h.tracked.hear ranges ho host, h.sent.ackUnfollowed ranges ?_ fun _ _ => id, fun j => ?_⟩
      · rw [operationOf_ackOfOrder]
        exact (hostOperation_ne o.op).2
      · by_cases hj : j = i
        · subst hj
          simpa using Nat.succ_le_of_lt hlt
        · simpa [hj] using h.heard_le j
    · exact h

theorem Inv.stray (h : Inv s) (report : ReportedHost) : Inv (s.handle ranges (.stray report)) := by
  have hfewer : Tracked (fun i => update s.astray report.streamIDx true i = false) s.heard s.server := by
    refine h.tracked.mono fun i _ hi => ?_
    by_cases heq : i = report.streamIDx
    · subst heq
      simp at hi
    · simpa [heq] using hi
  have hstray : update s.astray report.streamIDx true report.streamIDx ≠ false := by simp
  by_cases hreport : s.server.operationOf report = .report
  · exact ⟨hfewer.report ranges hreport fun hg => absurd hg hstray, h.sent.report ranges hreport False.elim, h.heard_le⟩
  · exact ⟨hfewer.ackUnfollowed ranges hreport fun _ _ => hstray, h.sent.ackUnfollowed ranges hreport fun _ _ => id,
      h.heard_le⟩

theorem Inv.handle (h : Inv s) {e : Signal} (hcalm : s.Calm e) : Inv (s.handle ranges e) := by
  cases e with
  | add host => exact ⟨h.tracked.handleAdd ranges host, h.sent.handleAdd ranges host, h.heard_le⟩
  | report i host =>
    have hreport : s.server.operationOf ⟨i, .report, none, host⟩ = .report := rfl
    exact ⟨h.tracked.report ranges hreport hcalm, h.sent.report ranges hreport False.elim, h.heard_le⟩
  | answer i => exact h.answer ranges i
  | hear i host => exact h.hear ranges i host
  | stray report => exact h.stray ranges report
  | close i => exact ⟨h.tracked.handleCloseStream ranges i, h.sent.handleCloseStream ranges i, h.heard_le⟩
  | timeout version => exact ⟨h.tracked.handleTimeout version, h.sent.handleTimeout version, h.heard_le⟩
  | coalesceFire =>
    exact ⟨h.tracked.handleCoalesceFire ranges hcalm, h.sent.handleCoalesceFire ranges hcalm, h.heard_le⟩

/-- What can be come to by signals that are calm. -/
def Reached (coalesceWindow : Int) : Session → Prop :=
  Lib.Runs.Reachable (· = new coalesceWindow) fun s s' => ∃ ranges e, s.Calm e ∧ s' = s.handle ranges e

theorem Reached.inv {coalesceWindow : Int} (h : Reached coalesceWindow s) : Inv s := by
  refine h.invariant Inv ?_ ?_
  · rintro _ rfl
    exact .new coalesceWindow
  · rintro s _ hs ⟨ranges, e, hcalm, rfl⟩
    exact hs.handle ranges hcalm

/-- A stream that has acknowledged all it was sent, and sent nothing else but reports. -/
def Behaved (s : Session) (i : Nat) : Prop := s.astray i = false ∧ s.answered i = (s.server.orders i).length

instance (s : Session) (i : Nat) : Decidable (s.Behaved i) := inferInstanceAs (Decidable (_ ∧ _))

/-- The acks of such streams are all handled; or no round goes on, nor did since they connected. -/
def Spared (s : Session) : Prop :=
  ∀ i ∈ s.server.streams, s.Behaved i →
    if s.server.currentOperation = .report then (s.server.conns i).currentState = .report
    else s.heard i = s.answered i

instance (s : Session) : Decidable s.Spared := inferInstanceAs (Decidable (∀ i ∈ s.server.streams, _))

/-- In a round the disseminator has heard all acks of a stream exactly if it has it in the state of the phase. -/
theorem Inv.state_iff (h : Inv s) (hi : i ∈ s.server.streams) (hb : s.Behaved i) :
    (s.server.conns i).currentState = s.server.currentOperation ↔
      if s.server.currentOperation = .report then (s.server.conns i).currentState = .report
      else s.heard i = s.answered i := by
  split
  · next hop => rw [hop]
  · next hop =>
    rw [hb.2]
    exact (h.tracked.views hop i hi hb.1).state

/-- A timeout closes no stream that has acknowledged all it was sent, exactly if all acks of such streams have been handled
and the round is not over. -/
theorem timeout_spares_iff (coalesceWindow : Int) (s : Session) (h : Reached coalesceWindow s) (ranges : Ranges)
    (version : Nat) :
    (∀ i ∈ s.server.streams, s.Behaved i → i ∈ (s.handle ranges (.timeout version)).server.streams) ↔
      (version = s.server.currentVersion → s.Spared) := by
  have hinv := h.inv
  have hleft : ∀ i ∈ s.server.streams, i ∈ (s.handle ranges (.timeout version)).server.streams ↔
      (version = s.server.currentVersion → (s.server.conns i).currentState = s.server.currentOperation) :=
    fun i hi => mem_handleTimeout hinv.tracked.toBooks hi version
  constructor
  · intro hkept hversion i hi hb
    exact (hinv.state_iff hi hb).1 ((hleft i hi).1 (hkept i hi hb) hversion)
  · intro hspared i hi hb
    exact (hleft i hi).2 fun hversion => (hinv.state_iff hi hb).2 (hspared hversion i hi hb)

def after (s : Session) (signals : List Signal) : Session := signals.foldl (handle .inOrder) s

theorem Reached.after {coalesceWindow : Int} (h : Reached coalesceWindow s) {signals : List Signal}
    (hcalm : ∀ e ∈ signals, ∀ s : Session, s.Calm e) : Reached coalesceWindow (s.after signals) := by
  induction signals generalizing s with
  | nil => exact h
  | cons e signals ih =>
    obtain ⟨he, hrest⟩ := forall_mem_cons.1 hcalm
    exact ih (h.step ⟨.inOrder, e, he s, rfl⟩) hrest

/-- A stream acknowledges an order, and that is handled. -/
def acked (i : Nat) : List Signal := [.answer i, .hear i plainHost]

/-- A stream connects and acknowledges all orders of the round. -/
def wholeRound : List Signal := [.add actorHost] ++ acked 0 ++ acked 0 ++ acked 0

/-- A second stream does not acknowledge its LOCK. -/
def oneLate : List Signal := wholeRound ++ [.add { actorHost with name := "10.0.0.3" }] ++ acked 0

theorem timeout_spares_iff_late : ((new 0).after oneLate).server.streams = [0, 1] ∧
    ((new 0).after oneLate).Behaved 0 ∧ ((new 0).after oneLate).Spared ∧
    ∀ i ∈ ((new 0).after oneLate).server.streams, ((new 0).after oneLate).Behaved i →
      i ∈ (((new 0).after oneLate).handle .inOrder (.timeout 2)).server.streams := by
  have hspared : ((new 0).after oneLate).Spared := by decide +kernel
  have hreached : Reached 0 ((new 0).after oneLate) := by
    refine Reached.after (.start rfl) ?_
    simp [oneLate, wholeRound, acked, Calm]
  exact ⟨by decide +kernel, by decide +kernel, hspared, (timeout_spares_iff 0 _ hreached .inOrder 2).2 fun _ => hspared⟩

/-- The timeout of the round is handled after its last ack, and closes the stream. So it does when that ack is queued. -/
theorem timeout_of_finished_round :
    ((new 0).after wholeRound).Behaved 0 ∧ ((new 0).after wholeRound).server.streams = [0] ∧
      ((new 0).after wholeRound).server.currentOperation = .report ∧
      ((new 0).after (wholeRound ++ [.timeout 1])).server.streams = [] ∧
    ((new 0).after wholeRound.dropLast).Behaved 0 ∧ ((new 0).after wholeRound.dropLast).server.streams = [0] ∧
      ((new 0).after (wholeRound.dropLast ++ [.timeout 1])).server.streams = [] := by
  decide +kernel

end Session

end Dapr.Placement
