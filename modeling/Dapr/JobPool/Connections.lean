import Dapr.JobPool.Gates
/-!
# The connections of a namespace

One loop handles the connections of a namespace: streams that connect and close, triggers, the
releases of their gates, and the scheduler's place among the others. Each stream has a loop of its
own, which sends the triggers given to it, and a goroutine that receives the results. A step is one
event of the connections loop, or one action of a stream.

Closing a stream, and shutting down, waits for the stream to handle what is in its queue and to
answer what is in flight; the connections loop handles nothing else meanwhile.

Which of several streams gets a trigger is left open.
-/

namespace Dapr.JobPool

open Lib.Totals

inductive Result where
  | success
  | failed
  | undeliverable
  deriving DecidableEq, Repr

/-- A trigger on its way to a stream. Its result function releases the gates it went through, if it
went through `dispatchWithGates`. -/
structure Sent where
  req : TriggerRequest
  gateKeys : Option GateKeys

/-- A stream, with what the connections loop knows of it. -/
structure Stream where
  appId : Option String
  actorTypes : List String
  gateKeys : List String
  /-- Whether it has left the pool, and only has to shut down. -/
  closing : Bool
  queue : List Sent
  /-- The trigger that is being sent. -/
  sending : Option Nat
  triggerIDx : Nat
  inflight : AList fun _ : Nat => Sent
  inflight_le : ∀ id ∈ inflight, id ≤ triggerIDx

namespace Stream

def enqueue (st : Stream) (x : Sent) : Stream := { st with queue := st.queue ++ [x] }

/-- Store the next trigger of the queue as in flight, and begin to send it. -/
def take (st : Stream) (x : Sent) (rest : List Sent) : Stream :=
  { st with
    queue := rest
    triggerIDx := st.triggerIDx + 1
    sending := some (st.triggerIDx + 1)
    inflight := st.inflight.insert (st.triggerIDx + 1) x
    inflight_le := by
      intro id hid
      rcases AList.mem_insert _ |>.1 hid with rfl | hid
      · exact le_rfl
      · exact Nat.le_succ_of_le (st.inflight_le id hid) }

def remove (st : Stream) (id : Nat) : Stream :=
  { st with
    inflight := st.inflight.erase id
    inflight_le := fun id' hid' => st.inflight_le id' (AList.mem_erase.1 hid').2 }

def doneSending (st : Stream) : Stream := { st with sending := none }

def close (st : Stream) : Stream := { st with closing := true }

def serves (st : Stream) (req : TriggerRequest) : Bool :=
  match req.target with
  | .job => st.appId = some req.appId
  | .actor actorType => actorType ∈ st.actorTypes
  | .unknown => false

theorem lookup_next (st : Stream) : st.inflight.lookup (st.triggerIDx + 1) = none := by
  refine AList.lookup_eq_none.2 fun hmem => ?_
  have := st.inflight_le _ hmem
  omega

end Stream

/-- The streams by their numbers, and the next number. -/
structure Streams where
  table : AList fun _ : Nat => Stream
  streamIDx : Nat
  lt : ∀ i ∈ table, i < streamIDx

namespace Streams

def empty : Streams := ⟨∅, 0, fun i hi => absurd hi (AList.notMem_empty i)⟩

def lookup (s : Streams) (i : Nat) : Option Stream := s.table.lookup i

def add (s : Streams) (st : Stream) : Streams where
  table := s.table.insert s.streamIDx st
  streamIDx := s.streamIDx + 1
  lt := by
    intro i hi
    rcases AList.mem_insert _ |>.1 hi with rfl | hi
    · exact Nat.lt_succ_self _
    · exact Nat.lt_succ_of_lt (s.lt i hi)

def update (s : Streams) (i : Nat) (f : Stream → Stream) : Streams :=
  { s with table := modify i f s.table, lt := fun j hj => s.lt j (mem_modify.1 hj) }

def erase (s : Streams) (i : Nat) : Streams :=
  { s with table := s.table.erase i, lt := fun j hj => s.lt j (AList.mem_erase.1 hj).2 }

theorem lookup_next (s : Streams) : s.table.lookup s.streamIDx = none :=
  AList.lookup_eq_none.2 fun hmem => Nat.lt_irrefl _ (s.lt _ hmem)

end Streams

/-- What the connections loop is doing. -/
inductive Phase where
  | idle
  | closing (streamIDx : Nat)
  | stopping
  | stopped
  deriving DecidableEq, Repr

/-- How many triggers were in flight through a gate when another one had been dispatched through it, and
how many were allowed. -/
structure Inflight where
  key : String
  current : Nat
  limit : Nat
  deriving DecidableEq, Repr

/-- The loop of a namespace, with all answers so far. -/
structure Connections where
  schedulerCount : Nat
  schedulerIdx : Nat
  streams : Streams
  gates : Gates
  /-- The release events that wait in the loop's queue. -/
  releases : List GateKeys
  phase : Phase
  /-- How many triggers were given to the loop. -/
  given : Nat
  answered : List (Nat × Result)
  recorded : List Inflight

structure ConcurrencyLimit where
  maxConcurrent : Int
  actor : Option String
  name : Option String
  deriving DecidableEq, Repr

structure WatchJobsRequest where
  appId : String
  /-- Whether it takes jobs, and not only actor reminders. -/
  acceptsJobs : Bool
  actorTypes : List String
  concurrencyLimits : List ConcurrencyLimit
  deriving DecidableEq, Repr

/-- What the loop and its streams do. -/
inductive Move where
  | add (req : WatchJobsRequest)
  | closeStream (i : Nat)
  | trigger (appId : String) (target : Target) (concurrencyKey : Option String) (pick : Nat → Nat)
  /-- The n-th release event is handled. -/
  | release (n : Nat) (pick : Nat → Nat)
  /-- The scheduler's place changes; the gates are gone through in some order. -/
  | schedulerInfo (count idx : Nat) (order : List String) (pick : Nat → Nat)
  | shutdown
  /-- A stream takes the next trigger from its queue and sends it. -/
  | take (i : Nat)
  | sent (i : Nat)
  | sendFailed (i : Nat)
  | recv (i id : Nat) (success : Bool)
  | down (i : Nat)
  /-- The connections loop has shut down its streams. -/
  | finish

namespace Connections

def empty : Connections := ⟨1, 0, .empty, ∅, [], .idle, 0, [], []⟩

def localLimit (c : Connections) (g : ConcurrencyGate) : Nat :=
  localLimitFromGlobal g.globalLimit c.schedulerCount c.schedulerIdx

/-- The result function of a trigger that went to a stream. -/
def resultFn (c : Connections) (x : Sent) (result : Result) : Connections :=
  { c with answered := c.answered ++ [(x.req.id, result)], releases := c.releases ++ x.gateKeys.toList }

def respond (c : Connections) (req : TriggerRequest) (result : Result) : Connections :=
  { c with answered := c.answered ++ [(req.id, result)] }

/-- The connected streams that a trigger may go to. -/
def candidates (c : Connections) (req : TriggerRequest) : List Nat :=
  (c.streams.table.entries.filter fun e => !e.2.closing && e.2.serves req).map (·.1)

def getStreamLoop (c : Connections) (pick : Nat → Nat) (req : TriggerRequest) : Option Nat :=
  (c.candidates req)[pick req.id % (c.candidates req).length]?

def streamEnqueue (c : Connections) (i : Nat) (x : Sent) : Connections :=
  { c with streams := c.streams.update i (·.enqueue x) }

def acquire (c : Connections) (keys : List String) : List String × Bool × Gates :=
  acquireGates c.schedulerCount c.schedulerIdx c.gates keys

def dispatchWithGates (c : Connections) (i : Nat) (req : TriggerRequest) (gateKeys : GateKeys) : Connections :=
  let inflight := gateKeys.keys.filterMap fun key => (c.gates.lookup key).map fun g => ⟨key, g.current, c.localLimit g⟩
  { c with recorded := c.recorded ++ inflight }.streamEnqueue i ⟨req, some gateKeys⟩

def handleTriggerRequest (c : Connections) (pick : Nat → Nat) (req : TriggerRequest) : Connections :=
  match c.getStreamLoop pick req with
  | none => c.respond req .undeliverable
  | some i =>
    let gateKeys := gateKeysForTrigger c.gates req
    match gateKeys.keys with
    | [] => c.streamEnqueue i ⟨req, none⟩
    | primary :: _ =>
      match c.acquire gateKeys.keys with
      | (_, true, gates) => { c with gates := gates }.dispatchWithGates i req gateKeys
      | (acquired, false, gates) =>
        let gates := releaseGates gates acquired
        match (gates.lookup primary).bind (·.enqueue req) with
        | some gate => { c with gates := gates.insert primary gate }
        | none => { c with gates := gates }.respond req .failed

/-- What came of dispatching a waiting trigger. -/
inductive Attempt where
  | dispatched
  /-- Resolved without being dispatched. -/
  | consumed
  | kept
  deriving DecidableEq, Repr

def tryDispatchPending (c : Connections) (pick : Nat → Nat) (next : TriggerRequest) : Attempt × Connections :=
  match c.getStreamLoop pick next with
  | none => (.consumed, c.respond next .undeliverable)
  | some i =>
    let gateKeys := gateKeysForTrigger c.gates next
    match c.acquire gateKeys.keys with
    | (_, true, gates) => (.dispatched, { c with gates := gates }.dispatchWithGates i next gateKeys)
    | (acquired, false, gates) => (.kept, { c with gates := releaseGates gates acquired })

def requeueFront (c : Connections) (key : String) (reqs : List TriggerRequest) : Connections :=
  { c with gates := modify key (·.requeueFront reqs) c.gates }

/-- The loop of `drainPending`: so many attempts, with those skipped so far. -/
def drainLoop (pick : Nat → Nat) (key : String) : Nat → List TriggerRequest → Connections → Connections
  | 0, skipped, c => c.requeueFront key skipped
  | n + 1, skipped, c =>
    match (c.gates.lookup key).bind (·.dequeue) with
    | none => c.requeueFront key skipped
    | some (next, gate) =>
      match { c with gates := c.gates.insert key gate }.tryDispatchPending pick next with
      | (.dispatched, c) => c.requeueFront key skipped
      | (.consumed, c) => drainLoop pick key n skipped c
      | (.kept, c) => drainLoop pick key n (skipped ++ [next]) c

def drainPending (c : Connections) (pick : Nat → Nat) (key : String) : Connections :=
  drainLoop pick key (((c.gates.lookup key).map (·.pending.length)).getD 0) [] c

def handleConcurrencyRelease (c : Connections) (pick : Nat → Nat) (keys : List String) : Connections :=
  (keys.filter (· ∈ c.gates)).foldl (fun c key => c.drainPending pick key) { c with gates := releaseGates c.gates keys }

def handleSchedulerInfoUpdate (c : Connections) (pick : Nat → Nat) (count idx : Nat) (order : List String) : Connections :=
  order.foldl (fun c key => c.drainPending pick key) { c with schedulerCount := max count 1, schedulerIdx := idx }

/-- Answer everything that waits at the given gates. -/
def undeliver (c : Connections) (gates : List (Σ _ : String, ConcurrencyGate)) : Connections :=
  { c with answered := c.answered ++ gates.flatMap fun e => e.2.pending.map fun req => (req.id, .undeliverable) }

/-- Whether some connected stream asks for a limit with this key. -/
def referenced (c : Connections) (key : String) : Bool :=
  c.streams.table.entries.any fun e => !e.2.closing && key ∈ e.2.gateKeys

def removeOrphanedGates (c : Connections) : Connections :=
  { c.undeliver (c.gates.entries.filter fun e => !c.referenced e.1) with gates := keep c.referenced c.gates }

end Connections

/-- A stream that has just connected, with the keys of its limits. -/
def Stream.connected (req : WatchJobsRequest) (gateKeys : List String) : Stream where
  appId := if req.acceptsJobs then some req.appId else none
  actorTypes := req.actorTypes
  gateKeys := gateKeys
  closing := false
  queue := []
  sending := none
  triggerIDx := 0
  inflight := ∅
  inflight_le := fun id hid => absurd hid (AList.notMem_empty id)

/-- The key and the value of a limit that counts. -/
def ConcurrencyLimit.gate (limit : ConcurrencyLimit) : Option (String × Nat) :=
  if limit.maxConcurrent ≤ 0 then none
  else limit.actor.map fun actorType =>
    (match limit.name with
      | some name => actorType ++ ":" ++ name
      | none => actorType,
    limit.maxConcurrent.toNat)

def setLimit (gates : Gates) (key : String) (limit : Nat) : Gates :=
  match gates.lookup key with
  | some gate => gates.insert key { gate with globalLimit := limit }
  | none => gates.insert key ⟨limit, 0, []⟩

namespace Connections

def handleAdd (c : Connections) (req : WatchJobsRequest) : Connections :=
  let limits := req.concurrencyLimits.filterMap (·.gate)
  removeOrphanedGates { c with
    streams := c.streams.add (.connected req (limits.map (·.1)))
    gates := limits.foldl (fun gates limit => setLimit gates limit.1 limit.2) c.gates }

def handleCloseStream (c : Connections) (i : Nat) : Connections :=
  match c.streams.lookup i with
  | none => c
  | some _ => { c with streams := c.streams.update i (·.close), phase := .closing i }

/-- Answer everything that is in flight on a stream. -/
def resolveAll (c : Connections) (sents : List (Σ _ : Nat, Sent)) : Connections :=
  sents.foldl (fun c e => c.resultFn e.2 .undeliverable) c

/-- A stream's result function is taken from its inflight map and called. -/
def resolve (c : Connections) (i : Nat) (st : Stream) (id : Nat) (result : Result) : Connections :=
  match st.inflight.lookup id with
  | none => c
  | some x => { c with streams := c.streams.update i (·.remove id) }.resultFn x result

/-- What a stream does by itself. -/
def streamStep (c : Connections) (i : Nat) (st : Stream) : Move → Option Connections
  | .take _ =>
    match st.sending, st.queue with
    | none, x :: rest => some { c with streams := c.streams.update i (·.take x rest) }
    | _, _ => none
  | .sent _ =>
    match st.sending with
    | some _ => some { c with streams := c.streams.update i (·.doneSending) }
    | none => none
  | .sendFailed _ =>
    match st.sending with
    | some id => some ({ c with streams := c.streams.update i (·.doneSending) }.resolve i st.doneSending id .undeliverable)
    | none => none
  | .recv _ id success => some (c.resolve i st id (if success then .success else .failed))
  | .down _ =>
    -- only when it was told to, and has handled its queue
    if (c.phase = .closing i ∨ c.phase = .stopping) ∧ st.queue = [] ∧ st.sending = none then
      let c' := { c with streams := c.streams.erase i }.resolveAll st.inflight.entries
      some (if c.phase = .closing i then { c'.removeOrphanedGates with phase := .idle } else c')
    else none
  | _ => none

def step (c : Connections) (m : Move) : Option Connections :=
  match m with
  | .add req => if c.phase = .idle then some (c.handleAdd req) else none
  | .closeStream i => if c.phase = .idle then some (c.handleCloseStream i) else none
  | .trigger appId target concurrencyKey pick =>
    if c.phase = .idle then
      some ({ c with given := c.given + 1 }.handleTriggerRequest pick ⟨c.given, appId, target, concurrencyKey⟩)
    else none
  | .release n pick =>
    match c.releases[n]? with
    | some keys =>
      if c.phase = .idle then some ({ c with releases := c.releases.eraseIdx n }.handleConcurrencyRelease pick keys.keys)
      else none
    | none => none
  | .schedulerInfo count idx order pick =>
    if c.phase = .idle ∧ order.Perm c.gates.keys then some (c.handleSchedulerInfoUpdate pick count idx order) else none
  | .shutdown => if c.phase = .idle then some { c with phase := .stopping } else none
  | .finish =>
    if c.phase = .stopping ∧ c.streams.table.entries = [] then
      some { c.undeliver c.gates.entries with gates := ∅, phase := .stopped }
    else none
  | .take i | .sent i | .sendFailed i | .recv i _ _ | .down i => (c.streams.lookup i).bind fun st => c.streamStep i st m

/-! ## Draining a queue -/

def queueOf (c : Connections) (key : String) : List TriggerRequest := ((c.gates.lookup key).map (·.pending)).getD []

def withQueue (c : Connections) (key : String) (g : ConcurrencyGate) (reqs : List TriggerRequest) : Connections :=
  { c with gates := c.gates.insert key { g with pending := reqs } }

/-- A drain goes on, with what it has skipped, until a trigger is dispatched or none is left, and then
puts back what it has skipped. -/
theorem drainLoop_rule (pick : Nat → Nat) (key : String) {P : Nat → List TriggerRequest → Connections → Prop}
    {D : List TriggerRequest → Connections → Prop}
    (hstep : ∀ n skipped c next g rest attempt c', P (n + 1) skipped c → c.gates.lookup key = some g →
      g.pending = next :: rest → (c.withQueue key g rest).tryDispatchPending pick next = (attempt, c') →
      match attempt with
      | .dispatched => D skipped c'
      | .consumed => P n skipped c'
      | .kept => P n (skipped ++ [next]) c')
    (n : Nat) (skipped : List TriggerRequest) {c : Connections} (h : P n skipped c) :
    ∃ skipped' c', drainLoop pick key n skipped c = c'.requeueFront key skipped' ∧
      (D skipped' c' ∨ ∃ n', P n' skipped' c' ∧ (n' = 0 ∨ c'.queueOf key = [])) := by
  induction n generalizing skipped c with
  | zero => exact ⟨skipped, c, rfl, .inr ⟨0, h, .inl rfl⟩⟩
  | succ n ih =>
    unfold drainLoop
    split
    · next hnone =>
      refine ⟨skipped, c, rfl, .inr ⟨n + 1, h, .inr ?_⟩⟩
      cases hg : c.gates.lookup key with
      | none => simp [queueOf, hg]
      | some g =>
        rw [hg, Option.bind_some, ConcurrencyGate.dequeue] at hnone
        split at hnone
        · next hnil => simp [queueOf, hg, hnil]
        · cases hnone
    · next next gate hnext =>
      obtain ⟨g, hg, hdequeue⟩ := Option.bind_eq_some_iff.1 hnext
      obtain ⟨rest, hrest, rfl⟩ : ∃ rest, g.pending = next :: rest ∧ gate = { g with pending := rest } := by
        unfold ConcurrencyGate.dequeue at hdequeue
        split at hdequeue
        · cases hdequeue
        · next req rest heq =>
          cases hdequeue
          exact ⟨rest, heq, rfl⟩
      have hattempt := hstep n skipped c next g rest
      split
      · next hc' => exact ⟨skipped, _, rfl, .inl (hattempt .dispatched _ h hg hrest hc')⟩
      · next hc' => exact ih _ (hattempt .consumed _ h hg hrest hc')
      · next hc' => exact ih _ (hattempt .kept _ h hg hrest hc')

end Connections

end Dapr.JobPool
