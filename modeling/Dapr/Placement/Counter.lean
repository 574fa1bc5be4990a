import Dapr.Placement.Disseminator
import Dapr.Lib.Runs
import Mathlib.Data.List.Count
/-!
# The count of acknowledgements

During a round the disseminator counts the streams that are in the state of the phase, and goes on
to the next phase when the count is that of all streams. The count is always right. A round waits
for some stream, unless the last one it waited for closed without being noticed: the handler of a
closed stream returns early if no stream is left, or if the stream hosted no actors. A report that
comes after all streams are gone starts a round that has no streams.
-/

namespace Dapr.Placement

open List

/-! ## Counting -/

section Counting
variable {l : List Nat} {i : Nat}

theorem countP_gain {p q : Nat → Bool} (hl : l.Nodup) (hi : i ∈ l) (hp : p i = false) (hq : q i = true)
    (h : ∀ j, j ≠ i → q j = p j) : l.countP q = l.countP p + 1 := by
  have hrest : (l.erase i).countP q = (l.erase i).countP p := by
    refine countP_congr fun j hj => ?_
    rw [h j fun heq => hl.not_mem_erase (heq ▸ hj)]
  rw [(perm_cons_erase hi).countP_eq q, (perm_cons_erase hi).countP_eq p,
    countP_cons_of_pos hq, countP_cons_of_neg (by simp [hp]), hrest]

theorem countP_filter_ne {p : Nat → Bool} (hl : l.Nodup) (hi : i ∈ l) :
    l.countP p = (l.filter fun j => j ≠ i).countP p + if p i = true then 1 else 0 := by
  have herase : (l.filter fun j => j ≠ i) = l.erase i := by
    rw [hl.erase_eq_filter i]
    exact filter_congr fun j _ => by by_cases hj : j = i <;> simp [hj]
  rw [(perm_cons_erase hi).countP_eq p, herase, countP_cons]

end Counting

namespace Disseminator

def reached (d : Disseminator) : Nat := d.streams.countP fun i => (d.conns i).currentState = d.currentOperation

/-- The books of the rounds. -/
structure Books (d : Disseminator) : Prop where
  nodup : d.streams.Nodup
  streams_lt : ∀ i ∈ d.streams, i < d.streamIDx
  known : d.currentOperation ≠ .unknown
  count : d.currentOperation ≠ .report → d.streamsInTargetState = d.reached

/-- A round that is on waits for some stream. -/
def Waits (d : Disseminator) : Prop := d.currentOperation ≠ .report → d.streamsInTargetState < d.streams.length

/-- The books are right, and a round waits if `P` holds. -/
structure Sound (P : Prop) (d : Disseminator) : Prop extends Books d where
  waits : P → d.Waits

variable {P Q : Prop} {d : Disseminator}

theorem mem_sent {p : Prop} [Decidable p] {o o' : Order} (h : o ∈ if p then [o'] else []) : o = o' ∧ p := by
  split at h
  · exact ⟨by simpa using h, ‹_›⟩
  · cases h

theorem Sound.imp (h : Sound P d) (hpq : Q → P) : Sound Q d := ⟨h.toBooks, fun hq => h.waits (hpq hq)⟩

theorem Books.sound (h : Books d) : Sound False d := ⟨h, False.elim⟩

theorem Books.reached_le (_ : Books d) : d.reached ≤ d.streams.length := countP_le_length

/-- A count of all streams means that all are in the state. -/
theorem Books.all_reached (h : Books d) (hop : d.currentOperation ≠ .report)
    (hfull : (d.streams.length : Int) ≤ d.streamsInTargetState) :
    ∀ i ∈ d.streams, (d.conns i).currentState = d.currentOperation := by
  rw [h.count hop] at hfull
  have hlen : d.reached = d.streams.length := Nat.le_antisymm h.reached_le (by omega)
  intro i hi
  simpa using countP_eq_length.1 hlen i hi

variable {p : Nat → Bool} {d' : Disseminator} {i : Nat} {op : HostOperation}

/-- Changes that the count does not depend on. -/
theorem Sound.congr (h : Sound P d) (hstreams : d'.streams = d.streams)
    (hstate : ∀ i, (d'.conns i).currentState = (d.conns i).currentState) (hidx : d'.streamIDx = d.streamIDx)
    (hop : d'.currentOperation = d.currentOperation) (hcount : d'.streamsInTargetState = d.streamsInTargetState) :
    Sound P d' where
  nodup := hstreams ▸ h.nodup
  streams_lt := by
    rw [hstreams, hidx]
    exact h.streams_lt
  known := hop ▸ h.known
  count := by
    simp only [reached, hop, hcount, hstreams, hstate]
    exact h.count
  waits := by
    simp only [Waits, hop, hcount, hstreams]
    exact h.waits

/-- Between rounds there is nothing to count. -/
theorem Books.idle (hnodup : d'.streams.Nodup) (hlt : ∀ i ∈ d'.streams, i < d'.streamIDx)
    (hop : d'.currentOperation = .report) : Sound Q d' :=
  ⟨⟨hnodup, hlt, by simp [hop], fun hne => absurd hop hne⟩, fun _ hne => absurd hop hne⟩

/-! ## Rounds -/

/-- No stream has reached the state: then a round waits if it has streams. -/
theorem Books.fresh (d' : Disseminator) (hnodup : d'.streams.Nodup) (hlt : ∀ i ∈ d'.streams, i < d'.streamIDx)
    (hknown : d'.currentOperation ≠ .unknown) (hzero : d'.streamsInTargetState = 0)
    (hnone : ∀ i ∈ d'.streams, (d'.conns i).currentState ≠ d'.currentOperation) : Sound (d'.streams ≠ []) d' := by
  have hreached : d'.reached = 0 := countP_eq_zero.2 fun i hi => by simpa using hnone i hi
  refine ⟨⟨hnodup, hlt, hknown, fun _ => by rw [hzero, hreached]; rfl⟩, fun hne _ => ?_⟩
  have := length_pos_iff.2 hne
  omega

theorem Books.lockAll (h : d.streams.Nodup) (hlt : ∀ i ∈ d.streams, i < d.streamIDx)
    (hzero : d.streamsInTargetState = 0) : Sound (d.streams ≠ []) d.lockAll := by
  refine Books.fresh d.lockAll h hlt (by simp [Disseminator.lockAll]) hzero fun i hi => ?_
  have hi : i ∈ d.streams := hi
  simp [Disseminator.lockAll, hi]

theorem Books.startRound (h : Books d) : Sound (d.streams ≠ []) d.startRound :=
  Books.lockAll (d := { d with currentVersion := d.currentVersion + 1, streamsInTargetState := 0 })
    h.nodup h.streams_lt rfl

/-- The next phase, of which each stream is sent an order. -/
def enter (d : Disseminator) (op : HostOperation) (f : Nat → Order) : Disseminator :=
  { d.send fun i => if i ∈ d.streams ∧ d.loopVersion i = some d.currentVersion then [f i] else [] with
    currentOperation := op, streamsInTargetState := 0 }

theorem Books.enter (h : Books d) (hall : ∀ i ∈ d.streams, (d.conns i).currentState = d.currentOperation)
    (hknown : op ≠ .unknown) (hnext : op ≠ d.currentOperation) (f : Nat → Order) :
    Sound (d.streams ≠ []) (d.enter op f) :=
  Books.fresh (d.enter op f) h.nodup h.streams_lt hknown rfl fun i hi heq => hnext (heq.symm.trans (hall i hi))

/-! ## Streams -/

theorem Books.reach (h : Books d) (hi : i ∈ d.streams) (hop : d.currentOperation ≠ .report) :
    Books (d.reach i d.currentOperation) := by
  unfold Disseminator.reach
  split
  · next hne =>
    refine ⟨h.nodup, h.streams_lt, h.known, fun _ => ?_⟩
    have hgain := countP_gain (p := fun j => (d.conns j).currentState = d.currentOperation)
      (q := fun j => (Function.update d.conns i { d.conns i with currentState := d.currentOperation } j).currentState =
        d.currentOperation) h.nodup hi (by simpa using hne) (by simp) fun j hj => by
          rw [Function.update_of_ne hj]
    have hcount := h.count hop
    simp only [reached] at hcount ⊢
    rw [hgain, hcount]
    rfl
  · exact h

theorem Sound.addStream (h : Sound P d) : Sound P d.addStream := by
  have hnew : d.streamIDx ∉ d.streams := fun hin => Nat.lt_irrefl _ (h.streams_lt _ hin)
  have hconn : ∀ j ∈ d.streams, d.addStream.conns j = d.conns j := fun j hj =>
    Function.update_of_ne (fun heq : j = d.streamIDx => hnew (heq ▸ hj)) _ _
  refine ⟨⟨?_, ?_, h.known, ?_⟩, ?_⟩
  · exact Lib.Runs.pairwise_concat h.nodup fun j hj heq => hnew (heq ▸ hj)
  · exact Lib.Runs.forall_mem_concat (fun j hj => Nat.lt_succ_of_lt (h.streams_lt j hj)) (Nat.lt_succ_self _)
  · intro hop
    have hsame : d.addStream.reached = d.reached := by
      have hstate : (d.addStream.conns d.streamIDx).currentState ≠ d.currentOperation := by
        simpa [Disseminator.addStream] using Ne.symm hop
      show (d.streams ++ [d.streamIDx]).countP (fun i => (d.addStream.conns i).currentState = d.currentOperation) = _
      rw [countP_append, countP_singleton, if_neg (by simpa using hstate)]
      exact countP_congr fun j hj => by rw [hconn j hj]
    rw [hsame]
    exact h.count hop
  · intro hP hop
    have := h.waits hP hop
    simp only [Disseminator.addStream, length_append]
    omega

theorem Books.dropStream (h : Books d) (hi : i ∈ d.streams) : Books (d.dropStream i) := by
  have hsub : ∀ j ∈ (d.dropStream i).streams, j ∈ d.streams := fun j hj => (mem_filter.1 hj).1
  refine ⟨h.nodup.filter _, fun j hj => h.streams_lt j (hsub j hj), h.known, fun hop => ?_⟩
  have hop : d.currentOperation ≠ .report := hop
  have hsplit := countP_filter_ne (p := fun j => (d.conns j).currentState = d.currentOperation) h.nodup hi
  have hcount : d.streamsInTargetState = d.streams.countP fun j => (d.conns j).currentState = d.currentOperation :=
    h.count hop
  show (if _ then _ else _) =
    (((d.streams.filter fun j => j ≠ i).countP fun j => (d.conns j).currentState = d.currentOperation : Nat) : Int)
  rw [hcount, hsplit]
  by_cases hstate : (d.conns i).currentState = d.currentOperation
  · simp [hstate, hop]
  · simp [hstate]

theorem Sound.disseminateTable (h : Sound P d) (ranges : Ranges) (i : Nat) : Sound P (d.disseminateTable ranges i) := by
  refine h.congr rfl (fun j => ?_) rfl rfl rfl
  by_cases hj : j = i
  · subst hj
    simp [Disseminator.disseminateTable]
  · simp [Disseminator.disseminateTable, hj]

theorem Sound.pushAll (h : Sound P d) (ranges : Ranges) (pushed : List Nat) :
    Sound P (pushed.foldl (Disseminator.disseminateTable ranges) d) := by
  induction pushed generalizing d with
  | nil => exact h
  | cons i pushed ih => exact ih (h.disseminateTable ranges i)

theorem Sound.addWaiting (h : Sound P d) (waiting : List Host) : Sound P (d.addWaiting waiting).1 := by
  induction waiting generalizing d with
  | nil => exact h
  | cons host waiting ih => exact ih (h.addStream.congr rfl (fun _ => rfl) rfl rfl rfl)

theorem addWaiting_streams (d : Disseminator) (waiting : List Host) :
    ∃ added, (d.addWaiting waiting).1.streams = d.streams ++ added ∧ (waiting ≠ [] → added ≠ []) ∧
      ∀ i ∈ added, d.streamIDx ≤ i := by
  induction waiting generalizing d with
  | nil => exact ⟨[], by simp [Disseminator.addWaiting], fun h => absurd rfl h, by simp⟩
  | cons host waiting ih =>
    obtain ⟨added, hadded, -, hlater⟩ := ih { d.addStream with store := (d.addStream.store.set d.streamIDx host).2 }
    refine ⟨d.streamIDx :: added, hadded.trans (by simp [Disseminator.addStream]), fun _ => by simp, ?_⟩
    exact forall_mem_cons.2 ⟨le_rfl, fun i hi => Nat.le_of_succ_le (hlater i hi)⟩

theorem addWaiting_currentOperation (d : Disseminator) (waiting : List Host) :
    (d.addWaiting waiting).1.currentOperation = d.currentOperation := by
  induction waiting generalizing d with
  | nil => rfl
  | cons host waiting ih => exact ih _

theorem addWaiting_fields (d : Disseminator) (waiting : List Host) :
    (d.addWaiting waiting).1.currentVersion = d.currentVersion ∧ (d.addWaiting waiting).1.orders = d.orders ∧
      (d.addWaiting waiting).1.streamsInTargetState = d.streamsInTargetState := by
  induction waiting generalizing d with
  | nil => exact ⟨rfl, rfl, rfl⟩
  | cons host waiting ih => exact ih _

/-! ## Between rounds -/

theorem Sound.processWaitingDeletes (h : Sound P d) : Sound P d.processWaitingDeletes := by
  unfold Disseminator.processWaitingDeletes
  split
  · exact h
  · next hne =>
    have happly : Sound P d.applyDeletes := h.congr rfl (fun _ => rfl) rfl rfl rfl
    exact happly.startRound.imp fun _ hnil => hne (.inr hnil)

theorem Sound.processWaitingDisseminate (h : Sound P d) (ranges : Ranges) (force : Bool) :
    Sound P (d.processWaitingDisseminate ranges force) := by
  unfold Disseminator.processWaitingDisseminate
  split
  · exact h
  · next hne =>
    have hstart : Sound P { d with waitingToDisseminate := [] } := h.congr rfl (fun _ => rfl) rfl rfl rfl
    have hadd := hstart.addWaiting d.waitingToDisseminate
    dsimp only
    split
    · refine hadd.startRound.imp fun _ hnil => ?_
      obtain ⟨added, hadded, hnew, -⟩ := addWaiting_streams { d with waitingToDisseminate := [] } d.waitingToDisseminate
      rw [hadded, append_eq_nil_iff] at hnil
      exact hnew hne hnil.2
    · exact hadd.pushAll ranges _

theorem Sound.finishRound (h : Sound P d) (ranges : Ranges) : Sound P (d.finishRound ranges) := by
  unfold Disseminator.finishRound
  split
  · unfold Disseminator.startCoalesceTimer
    split
    · exact h
    · exact h.congr rfl (fun _ => rfl) rfl rfl rfl
  · split
    · exact h.processWaitingDeletes
    · exact h.processWaitingDisseminate ranges false

/-! ## Acks -/

theorem reach_fields (d : Disseminator) (i : Nat) (op : HostOperation) :
    (d.reach i op).currentOperation = d.currentOperation ∧ (d.reach i op).streams = d.streams ∧
      (d.reach i op).streamIDx = d.streamIDx ∧ (d.reach i op).store = d.store := by
  unfold reach
  split <;> exact ⟨rfl, rfl, rfl, rfl⟩

theorem reach_conns {j : Nat} (hne : j ≠ i) : (d.reach i op).conns j = d.conns j := by
  unfold reach
  split
  · exact Function.update_of_ne hne _ _
  · rfl

/-- An ack of a stream leaves a round that waits: it goes on when all streams are counted. -/
theorem Books.waits_of_ne (h : Books d) (hne : d.streamsInTargetState ≠ d.streams.length) : Sound Q d := by
  refine ⟨h, fun _ hop => ?_⟩
  have hcount := h.count hop
  have := h.reached_le
  omega

/-- All streams are in the state of the phase. -/
def endPhase (ranges : Ranges) (d : Disseminator) (gone : List Nat) : Disseminator :=
  match d.currentOperation with
  | .lock => d.updateAll ranges
  | .update => d.unlockAll
  | .unlock => finishRound ranges
      { d with currentOperation := .report, streamsInTargetState := 0, waitingToDelete := d.waitingToDelete ++ gone }
  | _ => d

theorem advancePhase_eq (ranges : Ranges) (hfull : (d.streams.length : Int) ≤ d.streamsInTargetState) :
    d.advancePhase ranges = d.endPhase ranges [] := by
  unfold advancePhase endPhase
  rw [if_neg (not_lt.2 hfull)]
  cases d.currentOperation <;> simp

theorem Books.endPhase (h : Books d) (ranges : Ranges) (gone : List Nat) (hop : d.currentOperation ≠ .report)
    (hfull : (d.streams.length : Int) ≤ d.streamsInTargetState) : Sound (d.streams ≠ []) (d.endPhase ranges gone) := by
  have hall := h.all_reached hop hfull
  unfold Disseminator.endPhase
  cases hcase : d.currentOperation with
  | unknown => exact absurd hcase h.known
  | report => exact absurd hcase hop
  | lock | update => exact h.enter hall (by decide) (by simp [hcase]) _
  | unlock =>
    refine Sound.finishRound ?_ ranges
    exact Books.idle h.nodup h.streams_lt rfl

/-! ## Messages -/

/-- The operation a message is taken for. -/
def operationOf (d : Disseminator) (report : ReportedHost) : HostOperation :=
  if report.op = .unknown then d.currentOperation else report.op

/-- The stream has answered the table that was pushed to it alone. -/
def answered (d : Disseminator) (i : Nat) : Disseminator :=
  { d with conns := Function.update d.conns i { d.conns i with receivingTable := none } }

/-- What becomes of the disseminator with a message. -/
inductive Handled (ranges : Ranges) (d : Disseminator) (report : ReportedHost) : Disseminator → Prop where
  | same (h : d.isOld report.version = true ∨ d.operationOf report ≠ .report ∧
      (report.streamIDx ∉ d.streams ∨ (d.conns report.streamIDx).receivingTable ≠ none ∨
        d.operationOf report ≠ d.currentOperation ∨ d.currentOperation = .unknown)) : Handled ranges d report d
  | answered (hop : d.operationOf report ≠ .report) (hreceiving : (d.conns report.streamIDx).receivingTable ≠ none) :
      Handled ranges d report (d.answered report.streamIDx)
  | reported (hold : d.isOld report.version = false) (hop : d.operationOf report = .report) :
      Handled ranges d report (d.doReport ranges report.streamIDx report.host)
  | reached (hi : report.streamIDx ∈ d.streams) (hold : d.isOld report.version = false)
      (hop : d.operationOf report = d.currentOperation) (hround : d.currentOperation ≠ .report)
      (hless : (d.reach report.streamIDx d.currentOperation).streamsInTargetState ≠ d.streams.length) :
      Handled ranges d report (d.reach report.streamIDx d.currentOperation)
  | ended (hi : report.streamIDx ∈ d.streams) (hold : d.isOld report.version = false)
      (hop : d.operationOf report = d.currentOperation) (hround : d.currentOperation ≠ .report)
      (hfull : (d.reach report.streamIDx d.currentOperation).streamsInTargetState = d.streams.length) :
      Handled ranges d report ((d.reach report.streamIDx d.currentOperation).endPhase ranges
        (d.store.collectOrphans d.streams))

theorem handled (ranges : Ranges) (d : Disseminator) (report : ReportedHost) :
    Handled ranges d report (d.handleReportedHost ranges report) := by
  unfold handleReportedHost
  dsimp only
  split
  · next hold => exact .same (.inl hold)
  · next hold =>
    have hold : d.isOld report.version = false := Bool.eq_false_iff.2 hold
    change Handled ranges d report (d.handleCurrent ranges report (d.operationOf report))
    unfold handleCurrent
    dsimp only
    split
    · next hreceiving =>
      split
      · exact .answered hreceiving.2.2.1 hreceiving.2.1
      · exact .same (.inr ⟨hreceiving.2.2.1, .inr (.inl hreceiving.2.1)⟩)
    · split
      · next hother => exact .same (.inr ⟨hother.1, .inr (.inr (.inl hother.2))⟩)
      · next hcurrent =>
        by_cases hreport : d.operationOf report = .report
        · rw [hreport]
          exact .reported hold hreport
        · have hsame : d.operationOf report = d.currentOperation :=
            Classical.byContradiction fun hne => hcurrent ⟨hreport, hne⟩
          have hround : d.currentOperation ≠ .report := hsame ▸ hreport
          obtain ⟨hop', hstreams, -, hstore⟩ := reach_fields d report.streamIDx d.currentOperation
          rw [hsame]
          by_cases hi : report.streamIDx ∈ d.streams
          · have hreached := @Handled.reached ranges d report hi hold hsame hround
            have hended := @Handled.ended ranges d report hi hold hsame hround
            cases hcase : d.currentOperation with
            | unknown => exact .same (.inr ⟨hreport, .inr (.inr (.inr hcase))⟩)
            | report => exact absurd hcase hround
            | lock | update | unlock =>
              rw [hcase] at hreached hended hop' hstreams hstore
              simp only [handleReportedLock, handleReportedUpdate, handleReportedUnlock, hi, not_true_eq_false, if_false]
              split
              · next hfull =>
                rw [hstreams] at hfull
                simpa only [endPhase, hop', hstreams, hstore] using hended hfull
              · next hless => exact hreached (by rwa [hstreams] at hless)
          · have hsame' : Handled ranges d report d := .same (.inr ⟨hreport, .inl hi⟩)
            cases hcase : d.currentOperation <;> simp_all [handleReportedLock, handleReportedUpdate, handleReportedUnlock]

/-- A message of hosted types that starts a round. -/
def Starts (d : Disseminator) (report : ReportedHost) : Prop :=
  d.isOld report.version = false ∧ d.operationOf report = .report ∧
    d.store.hostChanged report.streamIDx report.host = true

theorem doReport_of_changed (ranges : Ranges) {host : Host} (h : d.store.hostChanged i host = true) :
    d.doReport ranges i host = startRound { d with store := (d.store.set i host).2 } := by
  have hset : (d.store.set i host).1 = true := (Store.set_fst _ _ _).trans h
  simp only [doReport, hset, if_true]

theorem Sound.doReport (h : Sound P d) (ranges : Ranges) (i : Nat) (host : Host) :
    Sound (P ∧ (d.streams = [] → d.store.hostChanged i host = false)) (d.doReport ranges i host) := by
  by_cases hchanged : d.store.hostChanged i host = true
  · rw [doReport_of_changed ranges hchanged]
    have hstore : Books { d with store := (d.store.set i host).2 } := ⟨h.nodup, h.streams_lt, h.known, h.count⟩
    refine hstore.startRound.imp fun hfine hnil => ?_
    rw [hfine.2 hnil] at hchanged
    cases hchanged
  · have hset : (d.store.set i host).1 ≠ true := fun hs => hchanged ((Store.set_fst _ _ _).symm.trans hs)
    simp only [Disseminator.doReport]
    rw [if_neg hset]
    split
    · exact (h.disseminateTable ranges i).imp And.left
    · exact h.imp And.left

/-- The answer to a table that was pushed to a stream alone is not counted. -/
theorem Sound.answered (h : Sound P d) (i : Nat) : Sound P (d.answered i) := by
  refine h.congr rfl (fun j => ?_) rfl rfl rfl
  by_cases hj : j = i
  · subst hj
    simp [Disseminator.answered]
  · simp [Disseminator.answered, hj]

theorem Sound.handleReportedHost (h : Sound P d) (ranges : Ranges) (report : ReportedHost) :
    Sound (P ∧ (d.streams = [] → ¬d.Starts report)) (d.handleReportedHost ranges report) := by
  have hnext := handled ranges d report
  generalize d.handleReportedHost ranges report = d' at hnext ⊢
  cases hnext with
  | same => exact h.imp And.left
  | answered => exact (h.answered _).imp And.left
  | reported hold hop =>
    refine (h.doReport ranges _ _).imp fun ⟨hP, hfine⟩ => ⟨hP, fun hnil => ?_⟩
    exact Bool.eq_false_iff.2 fun hchanged => hfine hnil ⟨hold, hop, hchanged⟩
  | reached hi _ _ hround hless =>
    refine (h.toBooks.reach hi hround).waits_of_ne ?_
    rwa [(reach_fields ..).2.1]
  | ended hi _ _ hround hfull =>
    obtain ⟨hop', hstreams, -⟩ := reach_fields d report.streamIDx d.currentOperation
    refine ((h.toBooks.reach hi hround).endPhase ranges _ (by rwa [hop']) (by rw [hstreams, hfull])).imp fun _ => ?_
    simp [hstreams, ne_nil_of_mem hi]

/-! ## Events -/

theorem Sound.handleAdd (h : Sound P d) (ranges : Ranges) (host : Host) : Sound P (d.handleAdd ranges host) := by
  unfold Disseminator.handleAdd
  split
  · exact h.congr rfl (fun _ => rfl) rfl rfl rfl
  · have hdeleted : ∀ d₁ : Disseminator, Sound P d₁ → Sound P d₁.applyDeletes := fun d₁ h₁ =>
      h₁.congr rfl (fun _ => rfl) rfl rfl rfl
    have horphans : ∀ d₁ : Disseminator, Sound P d₁ →
        Sound P { d₁ with waitingToDelete := d₁.store.collectOrphans d₁.streams } := fun d₁ h₁ =>
      h₁.congr rfl (fun _ => rfl) rfl rfl rfl
    refine ((hdeleted _ (horphans _ (hdeleted d h))).addStream.handleReportedHost ranges _).imp fun hP => ⟨hP, ?_⟩
    simp [Disseminator.addStream]

/-- The stream that closes is not the only one, and was on the books or is not the last that the round waits for. -/
def Noticed (d : Disseminator) (i : Nat) : Prop :=
  (d.dropStream i).streams ≠ [] ∧
    (d.store.has i = true ∨ (d.dropStream i).streamsInTargetState < (d.dropStream i).streams.length)

theorem Sound.handleCloseStream (h : Sound P d) (ranges : Ranges) (i : Nat) :
    Sound (P ∧ (d.currentOperation ≠ .report → i ∈ d.streams → d.Noticed i)) (d.handleCloseStream ranges i) := by
  unfold Disseminator.handleCloseStream
  split
  · exact h.imp And.left
  · next hi =>
    have hi : i ∈ d.streams := not_not.1 hi
    have hdrop := h.toBooks.dropStream hi
    dsimp only
    split
    · next hnil => exact ⟨hdrop, fun hfine hop => absurd hnil (hfine.2 hop hi).1⟩
    · next hne =>
      split
      · next hhas =>
        refine ⟨hdrop, fun hfine hop => (hfine.2 hop hi).2.resolve_left fun hin => ?_⟩
        have hhas : d.store.has i = false := hhas
        rw [hhas] at hin
        cases hin
      · have hqueue : Books { d.dropStream i with waitingToDelete := (d.dropStream i).waitingToDelete ++ [i] } :=
          ⟨hdrop.nodup, hdrop.streams_lt, hdrop.known, hdrop.count⟩
        split
        · next hop =>
          split
          · next hfull =>
            rw [advancePhase_eq]
            · exact (hqueue.endPhase ranges [] hop hfull).imp fun _ => hne
            · exact hfull
          · next hless => exact hqueue.waits_of_ne fun heq => hless (le_of_eq heq.symm)
        · next hop =>
          have hidle : Sound (P ∧ (d.currentOperation ≠ .report → i ∈ d.streams → d.Noticed i))
              { d.dropStream i with waitingToDelete := (d.dropStream i).waitingToDelete ++ [i] } :=
            ⟨hqueue, fun _ hop' => absurd hop' hop⟩
          split
          · exact hidle
          · exact hidle.processWaitingDeletes

/-- The late streams are closed. -/
def evict (d : Disseminator) : Disseminator :=
  { applyDeletes { d with
      store := d.store.deleteAll (d.streams.filter fun i => (d.conns i).currentState ≠ d.currentOperation)
      streams := d.streams.filter fun i => (d.conns i).currentState = d.currentOperation } with
    currentVersion := d.currentVersion + 1
    currentOperation := .report
    streamsInTargetState := 0
    waitingToDisseminate := [] }

theorem handleTimeout_current (d : Disseminator) : d.handleTimeout d.currentVersion =
    let next := (d.evict.addWaiting d.waitingToDisseminate).1
    if next.streams = [] then next else next.lockAll := by
  exact if_neg fun hne => hne rfl

theorem handleTimeout_other {version : Nat} (h : version ≠ d.currentVersion) : d.handleTimeout version = d := by
  exact if_pos h

theorem Books.evict (h : Books d) : Sound Q d.evict :=
  Books.idle (h.nodup.filter _) (fun i hi => h.streams_lt i (mem_filter.1 hi).1) rfl

theorem Sound.handleTimeout (h : Sound P d) (version : Nat) : Sound P (d.handleTimeout version) := by
  by_cases hversion : version = d.currentVersion
  · subst hversion
    rw [handleTimeout_current]
    have hidle : Sound P (d.evict.addWaiting d.waitingToDisseminate).1 := Sound.addWaiting h.evict _
    have hzero := (addWaiting_fields d.evict d.waitingToDisseminate).2.2
    dsimp only
    split
    · exact hidle
    · next hne => exact (Books.lockAll hidle.nodup hidle.streams_lt hzero).imp fun _ => hne
  · rw [handleTimeout_other hversion]
    exact h

theorem Sound.handleCoalesceFire (h : Sound P d) (ranges : Ranges) : Sound P (d.handleCoalesceFire ranges) := by
  unfold Disseminator.handleCoalesceFire
  have hfired : Sound P { d with coalesceTimer := false } := h.congr rfl (fun _ => rfl) rfl rfl rfl
  dsimp only
  split
  · exact hfired.processWaitingDeletes
  · refine Sound.processWaitingDisseminate ?_ ranges _
    exact hfired.congr rfl (fun _ => rfl) rfl rfl rfl

/-- What the disseminator handles. A message may be of any stream, operation and version. -/
inductive Input where
  | add (initialHost : Host)
  | message (report : ReportedHost)
  | close (streamIDx : Nat)
  | timeout (version : Nat)
  | coalesceFire

variable {e : Input}

def handle (ranges : Ranges) (d : Disseminator) : Input → Disseminator
  | .add initialHost => d.handleAdd ranges initialHost
  | .message report => d.handleReportedHost ranges report
  | .close streamIDx => d.handleCloseStream ranges streamIDx
  | .timeout version => d.handleTimeout version
  | .coalesceFire => d.handleCoalesceFire ranges

/-- A stream that closes during a round is noticed, and no message starts a round without streams. -/
def Fine (d : Disseminator) : Input → Prop
  | .message report => d.streams = [] → ¬d.Starts report
  | .close i => d.currentOperation ≠ .report → i ∈ d.streams → d.Noticed i
  | _ => True

theorem Sound.handle (h : Sound P d) (ranges : Ranges) (e : Input) : Sound (P ∧ d.Fine e) (d.handle ranges e) := by
  cases e with
  | add host => exact (h.handleAdd ranges host).imp And.left
  | message report => exact h.handleReportedHost ranges report
  | close i => exact h.handleCloseStream ranges i
  | timeout version => exact (h.handleTimeout version).imp And.left
  | coalesceFire => exact (h.handleCoalesceFire ranges).imp And.left

/-! ## Rounds that wait for nobody -/

/-- Without streams there is a round only for a message that should not start one. -/
theorem not_starts_of_waits (ranges : Ranges) (report : ReportedHost)
    (hwaits : (d.handleReportedHost ranges report).Waits) (hnil : d.streams = []) : ¬d.Starts report := by
  rintro ⟨hold, hop, hchanged⟩
  have hround : d.handleReportedHost ranges report =
      startRound { d with store := (d.store.set report.streamIDx report.host).2 } := by
    rw [← doReport_of_changed ranges hchanged]
    have hnext := handled ranges d report
    generalize d.handleReportedHost ranges report = d' at hnext ⊢
    cases hnext with
    | same h => simp_all
    | answered hne => exact absurd hop hne
    | reported => rfl
    | reached hi | ended hi => simp [hnil] at hi
  rw [hround] at hwaits
  have := hwaits (by simp [Disseminator.startRound, Disseminator.lockAll])
  simp [Disseminator.startRound, Disseminator.lockAll, disseminateLock, send, hnil] at this

theorem noticed_of_waits (h : Sound True d) (ranges : Ranges) (hop : d.currentOperation ≠ .report)
    (hi : i ∈ d.streams) (hwaits : (d.handleCloseStream ranges i).Waits) : d.Noticed i := by
  have hdrop := h.toBooks.dropStream hi
  unfold Disseminator.handleCloseStream at hwaits
  rw [if_neg (not_not.2 hi)] at hwaits
  by_cases hnil : (d.dropStream i).streams = []
  · rw [if_pos hnil] at hwaits
    have hless := hwaits hop
    rw [hdrop.count hop, hnil] at hless
    exact absurd hless (by simp)
  · rw [if_neg hnil] at hwaits
    refine ⟨hnil, ?_⟩
    by_cases hhas : d.store.has i = true
    · exact .inl hhas
    · have hhas' : (d.dropStream i).store.has i = false := Bool.eq_false_iff.2 hhas
      rw [if_pos hhas'] at hwaits
      exact .inr (hwaits hop)

theorem fine_of_waits (h : Sound True d) (ranges : Ranges) (hwaits : (d.handle ranges e).Waits) : d.Fine e := by
  cases e with
  | message report => exact not_starts_of_waits ranges report hwaits
  | close i => exact fun hop hi => noticed_of_waits h ranges hop hi hwaits
  | _ => trivial

/-! ## Phases that end -/

/-- The stream that acknowledges a phase, or leaves it. -/
def Input.passes : Input → Option Nat
  | .message report => if report.op = .report then none else some report.streamIDx
  | .close i => some i
  | _ => none

/-- The phase ended between two states. -/
def Ends (d d' : Disseminator) : Prop :=
  d'.currentOperation ≠ d.currentOperation ∨ d'.currentVersion ≠ d.currentVersion

theorem not_ends_self : ¬d.Ends d := by simp [Ends]

theorem not_ends_reach (i : Nat) (op : HostOperation) : ¬d.Ends (d.reach i op) := by
  unfold reach
  split <;> simp [Ends]

/-- All streams but one had reached the state, if they have with it. -/
theorem Books.others_reached (h : Books d) (hi : i ∈ d.streams) (hop : d.currentOperation ≠ .report)
    (hfull : (d.reach i d.currentOperation).streamsInTargetState = d.streams.length) :
    ∀ j ∈ d.streams, j ≠ i → (d.conns j).currentState = d.currentOperation := by
  obtain ⟨hop', hstreams, -⟩ := reach_fields d i d.currentOperation
  have hall := (h.reach hi hop).all_reached (by rwa [hop']) (by rw [hstreams, hfull])
  intro j hj hne
  have hstate := hall j (by rwa [hstreams])
  rwa [hop', reach_conns hne] at hstate

theorem Books.ends_message (h : Books d) (ranges : Ranges) {report : ReportedHost} (hop : d.currentOperation ≠ .report)
    (hack : report.op ≠ .report) (hends : d.Ends (d.handleReportedHost ranges report)) :
    ∀ j ∈ d.streams, j ≠ report.streamIDx → (d.conns j).currentState = d.currentOperation := by
  have hnext := handled ranges d report
  generalize d.handleReportedHost ranges report = d' at hnext hends
  cases hnext with
  | same | answered => exact absurd hends not_ends_self
  | reported _ hreport =>
    unfold operationOf at hreport
    split at hreport <;> contradiction
  | reached => exact absurd hends (not_ends_reach _ _)
  | ended hi _ _ _ hfull => exact h.others_reached hi hop hfull

theorem Books.ends_close (h : Books d) (ranges : Ranges) (hop : d.currentOperation ≠ .report)
    (hends : d.Ends (d.handleCloseStream ranges i)) :
    ∀ j ∈ d.streams, j ≠ i → (d.conns j).currentState = d.currentOperation := by
  unfold Disseminator.handleCloseStream at hends
  split at hends
  · exact absurd hends not_ends_self
  · next hi =>
    have hdrop := h.dropStream (not_not.1 hi)
    dsimp only at hends
    split at hends
    · simp [Ends, Disseminator.dropStream] at hends
    · split at hends
      · simp [Ends, Disseminator.dropStream] at hends
      · have hop' : (d.dropStream i).currentOperation ≠ .report := hop
        rw [if_pos hop'] at hends
        split at hends
        · next hfull =>
          intro j hj hne
          exact hdrop.all_reached hop hfull j (mem_filter.2 ⟨hj, by simpa using hne⟩)
        · simp [Ends, Disseminator.dropStream] at hends

theorem Books.ends (h : Books d) (ranges : Ranges) (hop : d.currentOperation ≠ .report) (hpasses : e.passes = some i)
    (hends : d.Ends (d.handle ranges e)) : ∀ j ∈ d.streams, j ≠ i → (d.conns j).currentState = d.currentOperation := by
  cases e with
  | message report =>
    by_cases hack : report.op = .report
    · simp [Input.passes, hack] at hpasses
    · obtain rfl : report.streamIDx = i := by simpa [Input.passes, hack] using hpasses
      exact h.ends_message ranges hop hack hends
  | close =>
    cases hpasses
    exact h.ends_close ranges hop hends
  | add | timeout | coalesceFire => cases hpasses

/-! ## Runs -/

/-- During a round the count is that of the streams in the state of the phase, and not of all streams. -/
def Barrier (d : Disseminator) : Prop :=
  d.currentOperation ≠ .report → d.streamsInTargetState = d.reached ∧ d.streamsInTargetState < d.streams.length

theorem Sound.barrier (h : Sound True d) : d.Barrier := fun hop => ⟨h.count hop, h.waits trivial hop⟩

/-- What the disseminator can come to, by inputs that are fine. -/
def Reached (coalesceWindow : Int) : Disseminator → Prop :=
  Lib.Runs.Reachable (· = new coalesceWindow) fun d d' => ∃ ranges e, d.Fine e ∧ d' = d.handle ranges e

theorem Reached.sound {coalesceWindow : Int} (h : Reached coalesceWindow d) : Sound True d := by
  refine h.invariant (Sound True) ?_ ?_
  · rintro _ rfl
    exact Books.idle .nil (by simp [new]) rfl
  · rintro d _ hd ⟨ranges, e, hfine, rfl⟩
    exact (hd.handle ranges e).imp fun _ => ⟨trivial, hfine⟩

/-- Whatever comes in, the books are right. -/
theorem books_after (coalesceWindow : Int) (inputs : List (Ranges × Input)) :
    Books (inputs.foldl (fun d e => d.handle e.1 e.2) (new coalesceWindow)) := by
  have hrun : ∀ d, Sound False d → Sound False (inputs.foldl (fun d e => d.handle e.1 e.2) d) := by
    induction inputs with
    | nil => exact fun d h => h
    | cons e inputs ih => exact fun d h => ih _ ((h.handle e.1 e.2).imp False.elim)
  have hnew : Sound False (new coalesceWindow) := Books.idle .nil (by simp [new]) rfl
  exact (hrun _ hnew).toBooks

/-- The barrier stands after every run of fine inputs, and the next input keeps it exactly if it is fine. A phase ends with
an ack or a closed stream only when all other streams have acknowledged it. -/
theorem barrier_iff (coalesceWindow : Int) (d : Disseminator) (h : Reached coalesceWindow d) (ranges : Ranges)
    (e : Input) :
    d.Barrier ∧ ((d.handle ranges e).Barrier ↔ d.Fine e) ∧
      ∀ i, d.currentOperation ≠ .report → e.passes = some i → d.Ends (d.handle ranges e) →
        ∀ j ∈ d.streams, j ≠ i → (d.conns j).currentState = d.currentOperation := by
  have hsound := h.sound
  refine ⟨hsound.barrier, ⟨fun hbarrier => ?_, fun hfine => ?_⟩, fun i hop hpasses => hsound.ends ranges hop hpasses⟩
  · exact fine_of_waits hsound ranges fun hop => (hbarrier hop).2
  · exact ((hsound.handle ranges e).imp fun _ => ⟨trivial, hfine⟩).barrier

def actorHost : Host := ⟨"10.0.0.1", 50002, "shop", "default", ["cart"]⟩

def plainHost : Host := ⟨"10.0.0.2", 50002, "web", "default", []⟩

def after (d : Disseminator) (inputs : List Input) : Disseminator := inputs.foldl (handle .inOrder) d

def ackOf (i : Nat) (op : HostOperation) (version : Nat) : Input := .message ⟨i, op, some version, plainHost⟩

/-- Streams 0 and 1 host actors, and the second round only waits for stream 1 to lock. -/
def lastToLock : Disseminator :=
  (new 0).after [.add actorHost, ackOf 0 .lock 1, ackOf 0 .update 1, ackOf 0 .unlock 1,
    .add { actorHost with name := "10.0.0.3" }, ackOf 0 .lock 2]

theorem reached_lastToLock : Reached 0 lastToLock := by
  have hinput : ∀ {d}, Reached 0 d → ∀ e, d.Fine e → Reached 0 (d.handle .inOrder e) := fun h e hfine =>
    h.step ⟨_, e, hfine, rfl⟩
  have hack : ∀ {d}, Reached 0 d → d.streams ≠ [] → ∀ op version, Reached 0 (d.handle .inOrder (ackOf 0 op version)) :=
    fun h hne op version => hinput h _ fun hnil => absurd hnil hne
  have hfirst := hinput (.start rfl) (.add actorHost) trivial
  have hround := hack (hack (hack hfirst (by decide) .lock 1) (by decide) .update 1) (by decide) .unlock 1
  exact hack (hinput hround (.add { actorHost with name := "10.0.0.3" }) trivial) (by decide) .lock 2

/-- When stream 1 closes instead, the round goes on without it. -/
theorem barrier_iff_close :
    lastToLock.streams = [0, 1] ∧ lastToLock.Fine (.close 1) ∧
      (lastToLock.handle .inOrder (.close 1)).Barrier ∧
      (lastToLock.handle .inOrder (.close 1)).currentOperation = .update ∧
      ∀ j ∈ lastToLock.streams, j ≠ 1 → (lastToLock.conns j).currentState = lastToLock.currentOperation := by
  have hfine : lastToLock.Fine (.close 1) := fun _ _ => ⟨by decide, .inl (by decide)⟩
  have hends : lastToLock.Ends (lastToLock.handle .inOrder (.close 1)) := by unfold Ends; decide
  obtain ⟨-, hbarrier, hothers⟩ := barrier_iff 0 lastToLock reached_lastToLock .inOrder (.close 1)
  exact ⟨by decide, hfine, hbarrier.2 hfine, by decide, hothers 1 (by decide) rfl hends⟩

/-- Stream 1 hosts no actors, and closes while it is the last one that has not locked. -/
def lastUnnoticed : List Input :=
  [.add actorHost, ackOf 0 .lock 1, ackOf 0 .update 1, ackOf 0 .unlock 1, .add plainHost,
    .message ⟨0, .report, none, { actorHost with entities := ["cart", "order"] }⟩, ackOf 0 .lock 2, .close 1]

/-- The round then waits for nobody. So does one whose only stream closes, and one that a report starts after the
streams timed out. -/
theorem waits_for_nobody :
    ((new 0).after lastUnnoticed).currentOperation = .lock ∧
      ((new 0).after lastUnnoticed).streamsInTargetState = 1 ∧ ((new 0).after lastUnnoticed).streams = [0] ∧
    ((new 0).after [.add actorHost, .close 0]).currentOperation = .lock ∧
      ((new 0).after [.add actorHost, .close 0]).streams = [] ∧
    ((new 0).after [.add actorHost, .timeout 1, .message ⟨0, .report, none, actorHost⟩]).currentOperation = .lock ∧
      ((new 0).after [.add actorHost, .timeout 1, .message ⟨0, .report, none, actorHost⟩]).streams = [] := by
  decide +kernel

end Disseminator

end Dapr.Placement
