import Dapr.SchedulerPlacement.Sidecar
/-!
# The placement controller of a namespace

The controller owns the streams of a namespace and its store, and disseminates tables by
rounds: LOCK to all streams, UPDATE once all have acknowledged it, UNLOCK once all have
acknowledged that. Rounds over disjoint actor types run side by side; changes to types that
a round holds stay pending until it is over. A new stream is sent a snapshot outside of any
round. `orders` records what was handed to each stream's loop, in order.
-/

namespace Dapr.SchedulerPlacement

/-- A dissemination of some types. -/
structure Round where
  seq : Nat
  types : List String
  /-- The operation that awaits acks. -/
  phase : Operation
  members : List Nat
  acked : List Nat

def Round.drop (r : Round) (streamIDx : Nat) : Round :=
  { r with members := r.members.filter fun i => i ≠ streamIDx, acked := r.acked.filter fun i => i ≠ streamIDx }

/-- The loop of a namespace, with all orders it sent. -/
structure Connections where
  coalesceWindow : Int
  streams : List Nat
  streamIDx : Nat
  store : Store
  versions : String → Nat
  seq : Nat
  rounds : List Round
  lockedTypes : String → Option Nat
  pendingTypes : List String
  /-- Snapshots that are not acknowledged yet, with their streams. -/
  oneshots : List (Nat × Nat)
  coalesceTimer : Bool
  orders : Nat → List Order

/-- The orders in which a handler ranges over maps: over the rounds a stream was removed from,
and over the stored hosts for the tables of the order with a given number. -/
structure Ranges where
  seqs : List Nat → List Nat
  hosts : Nat → List HostEntry → List HostEntry
  seqs_perm : ∀ l, (seqs l).Perm l
  hosts_perm : ∀ seq l, (hosts seq l).Perm l

def Ranges.inOrder : Ranges := ⟨id, fun _ => id, fun _ => .refl _, fun _ _ => .refl _⟩

namespace Connections

def new (coalesceWindow : Int) : Connections where
  coalesceWindow := coalesceWindow
  streams := []
  streamIDx := 0
  store := .new
  versions := fun _ => 0
  seq := 0
  rounds := []
  lockedTypes := fun _ => none
  pendingTypes := []
  oneshots := []
  coalesceTimer := false
  orders := fun _ => []

def sendAll (c : Connections) (streams : List Nat) (o : Order) : Connections :=
  { c with orders := fun i => if i ∈ streams then c.orders i ++ [o] else c.orders i }

def round (c : Connections) (seq : Nat) : Option Round := c.rounds.find? fun r => r.seq = seq

def setRound (c : Connections) (r : Round) : Connections :=
  { c with rounds := c.rounds.map fun r' => if r'.seq = r.seq then r else r' }

/-! ## Rounds -/

def markPending (c : Connections) (types : List String) : Connections :=
  { c with pendingTypes := types ∪ c.pendingTypes }

/-- Record a round over the given types, with all streams as members. -/
def openRound (c : Connections) (types : List String) : Connections :=
  { c with
    seq := c.seq + 1
    versions := fun t => if t ∈ types then c.versions t + 1 else c.versions t
    lockedTypes := fun t => if t ∈ types then some (c.seq + 1) else c.lockedTypes t
    pendingTypes := c.pendingTypes.filter fun t => t ∉ types
    rounds := ⟨c.seq + 1, types, .lock, c.streams, []⟩ :: c.rounds }

def startRound (c : Connections) (types : List String) : Connections :=
  (c.openRound types).sendAll c.streams (.lock (c.seq + 1) types)

def maybeDisseminate (c : Connections) : Connections :=
  if c.pendingTypes = [] ∨ c.coalesceTimer = true then c
  else if c.streams = [] then { c with pendingTypes := [] }
  else
    let types := (c.pendingTypes.filter fun t => c.lockedTypes t = none).insertionSort (· ≤ ·)
    if types = [] then c else c.startRound types

def startCoalesceTimer (c : Connections) : Connections :=
  if c.coalesceWindow ≤ 0 ∨ c.coalesceTimer = true then c else { c with coalesceTimer := true }

def release (c : Connections) (r : Round) : Connections :=
  { c with
    rounds := c.rounds.filter fun r' => r'.seq ≠ r.seq
    lockedTypes := fun t => if t ∈ r.types ∧ c.lockedTypes t = some r.seq then none else c.lockedTypes t }

def completeRound (c : Connections) (r : Round) : Connections :=
  let c := c.release r
  if 0 < c.coalesceWindow ∧ c.pendingTypes ≠ [] then c.startCoalesceTimer else c.maybeDisseminate

def sendUpdate (ranges : Ranges) (c : Connections) (r : Round) : Connections :=
  -- the tables are those of the membership now, not of when the round started
  let tables := Store.tables (ranges.hosts r.seq c.store.hosts.entries) r.types
  let versions := r.types.map fun t => (t, c.versions t)
  (c.setRound { r with phase := .update, acked := [] }).sendAll r.members (.update r.seq r.types versions tables)

def sendUnlock (c : Connections) (r : Round) : Connections :=
  (c.setRound { r with phase := .unlock, acked := [] }).sendAll r.members (.unlock r.seq r.types)

def advanceRound (ranges : Ranges) (c : Connections) (seq : Nat) : Connections :=
  match c.round seq with
  | none => c
  | some r =>
    if r.members = [] then c.completeRound r
    else if r.acked.length < r.members.length then c
    else match r.phase with
      | .lock => c.sendUpdate ranges r
      | .update => c.sendUnlock r
      | .unlock => c.completeRound r

def advanceRounds (ranges : Ranges) (c : Connections) (seqs : List Nat) : Connections :=
  seqs.foldl (advanceRound ranges) c

/-! ## Streams -/

/-- Push the tables without a pending or running change to one stream; and the types that were
left out because a round holds them. -/
def sendSnapshot (ranges : Ranges) (c : Connections) (streamIDx : Nat) : Connections × List String :=
  if streamIDx ∉ c.streams then (c, [])
  else
    let seq := c.seq + 1
    let unpending := c.store.types.filter fun t => t ∉ c.pendingTypes
    let types := unpending.filter fun t => c.lockedTypes t = none
    let versions := types.map fun t => (t, c.versions t)
    let tables := Store.tables (ranges.hosts seq c.store.hosts.entries) types
    let c := { c with seq := seq, oneshots := (seq, streamIDx) :: c.oneshots }
    let c := ((c.sendAll [streamIDx] (.lock seq [])).sendAll [streamIDx] (.update seq [] versions tables)).sendAll
      [streamIDx] (.unlock seq [])
    (c, unpending.filter fun t => c.lockedTypes t ≠ none)

/-- Take a stream out of the store, the snapshots and the rounds. -/
def dropStream (c : Connections) (streamIDx : Nat) : Connections :=
  let (changed, store) := c.store.delete streamIDx
  { c.markPending changed with
    streams := c.streams.filter fun i => i ≠ streamIDx
    store := store
    oneshots := c.oneshots.filter fun p => p.2 ≠ streamIDx
    rounds := c.rounds.map fun r => r.drop streamIDx }

/-- Remove a stream; and the rounds whose phase may be complete now. -/
def removeStream (c : Connections) (streamIDx : Nat) : Connections × List Nat :=
  if streamIDx ∉ c.streams then (c, [])
  else
    let affected := (c.rounds.filter fun r => streamIDx ∈ r.members).map Round.seq
    let c := c.dropStream streamIDx
    (if c.streams = [] then { c with pendingTypes := [] } else c, affected)

def removeStreams (c : Connections) : List Nat → Connections × List Nat
  | [] => (c, [])
  | streamIDx :: rest =>
    let (c, affected) := c.removeStream streamIDx
    let (c, affected') := c.removeStreams rest
    (c, affected ++ affected')

/-! ## Events -/

def handleAdd (ranges : Ranges) (c : Connections) (initial : ActorHost) : Connections :=
  let streamIDx := c.streamIDx
  let c := { c with streamIDx := c.streamIDx + 1, streams := c.streams ++ [streamIDx] }
  let (changed, store) := c.store.set streamIDx initial
  let c : Connections := { c with store := store }
  let (c, locked) := (c.markPending changed).sendSnapshot ranges streamIDx
  (c.markPending locked).maybeDisseminate

def handleReportedTypes (c : Connections) (streamIDx : Nat) (host : ActorHost) : Connections :=
  if streamIDx ∉ c.streams then c
  else
    let (changed, store) := c.store.set streamIDx host
    let c : Connections := { c with store := store }
    (c.markPending changed).maybeDisseminate

def handleAck (ranges : Ranges) (c : Connections) (streamIDx : Nat) (ack : Ack) : Connections :=
  if streamIDx ∉ c.streams then c
  else match c.oneshots.lookup ack.seq with
    | some idx =>
      if idx = streamIDx ∧ ack.op = .unlock then
        { c with oneshots := c.oneshots.filter fun p => p.1 ≠ ack.seq }
      else c
    | none =>
      match c.round ack.seq with
      | none => c
      | some r =>
        if streamIDx ∉ r.members then c
        else if ack.op ≠ r.phase then c
        else (c.setRound { r with acked := r.acked.insert streamIDx }).advanceRounds ranges [ack.seq]

def handleCloseStream (ranges : Ranges) (c : Connections) (streamIDx : Nat) : Connections :=
  let (c, affected) := c.removeStream streamIDx
  (c.advanceRounds ranges (ranges.seqs affected)).maybeDisseminate

/-- Drop a round that timed out; those of its members that are left are told to unlock. -/
def abortRound (c : Connections) (r : Round) : Connections :=
  let c := (c.release r).sendAll (r.members.filter fun i => i ∈ c.streams) (.unlock r.seq r.types)
  if c.streams = [] then c else c.markPending r.types

def handleTimeout (ranges : Ranges) (c : Connections) (seq : Nat) : Connections :=
  match c.round seq with
  | none => c
  | some r =>
    let (c, affected) := c.removeStreams (r.members.filter fun i => i ∉ r.acked)
    ((c.abortRound r).advanceRounds ranges (ranges.seqs affected)).maybeDisseminate

def handleCoalesceFire (c : Connections) : Connections :=
  let c : Connections := { c with coalesceTimer := false }
  c.maybeDisseminate

def handleShutdown (c : Connections) : Connections :=
  { c with
    coalesceTimer := false
    streams := []
    rounds := []
    lockedTypes := fun _ => none
    pendingTypes := []
    oneshots := []
    store := .new }

end Connections

/-- What the loop of a namespace handles. -/
inductive EventConnections where
  | connAdd (initial : ActorHost)
  | reportedTypes (streamIDx : Nat) (host : ActorHost)
  | ack (streamIDx : Nat) (ack : Ack)
  | connCloseStream (streamIDx : Nat)
  | roundTimeout (seq : Nat)
  | coalesceFire
  | shutdown

def Connections.handle (ranges : Ranges) (c : Connections) : EventConnections → Connections
  | .connAdd initial => c.handleAdd ranges initial
  | .reportedTypes streamIDx host => c.handleReportedTypes streamIDx host
  | .ack streamIDx ack => c.handleAck ranges streamIDx ack
  | .connCloseStream streamIDx => c.handleCloseStream ranges streamIDx
  | .roundTimeout seq => c.handleTimeout ranges seq
  | .coalesceFire => c.handleCoalesceFire
  | .shutdown => c.handleShutdown

/-! ## The namespace and its sidecars -/

/-- The controller, and how many of their orders the sidecars have handled. -/
structure Namespace where
  server : Connections
  seen : Nat → Nat

inductive Event where
  | add (initial : ActorHost)
  | report (streamIDx : Nat) (host : ActorHost)
  | close (streamIDx : Nat)
  | ack (streamIDx : Nat) (ack : Ack)
  | timeout (seq : Nat)
  | coalesceFire
  | deliver (streamIDx : Nat)

namespace Namespace

def new (coalesceWindow : Int) : Namespace := ⟨.new coalesceWindow, fun _ => 0⟩

def sidecar (n : Namespace) (streamIDx : Nat) : Disseminator :=
  SchedulerPlacement.sidecar.after (n.server.orders streamIDx) (n.seen streamIDx)

/-- The sidecar sent the ack: it is the answer to an order it handled. -/
def Acked (n : Namespace) (streamIDx : Nat) (ack : Ack) : Prop :=
  ∃ q o, (n.server.orders streamIDx)[q]? = some o ∧ q < n.seen streamIDx ∧
    ((SchedulerPlacement.sidecar.after (n.server.orders streamIDx) q).handleOrderV2 o).2 = some ack

def handle (ranges : Ranges) (n : Namespace) : Event → Namespace
  | .add initial => { n with server := n.server.handleAdd ranges initial }
  | .report streamIDx host => { n with server := n.server.handleReportedTypes streamIDx host }
  | .close streamIDx => { n with server := n.server.handleCloseStream ranges streamIDx }
  | .ack streamIDx ack => { n with server := n.server.handleAck ranges streamIDx ack }
  | .timeout seq => { n with server := n.server.handleTimeout ranges seq }
  | .coalesceFire => { n with server := n.server.handleCoalesceFire }
  | .deliver streamIDx =>
    let next := min (n.seen streamIDx + 1) (n.server.orders streamIDx).length
    { n with seen := Function.update n.seen streamIDx next }

/-- The events that can happen. What a stream reports agrees with what the others reported on the
app id at an address; acks answer orders. -/
def Allowed (n : Namespace) : Event → Prop
  | .add initial => n.server.store.Agrees n.server.streamIDx initial
  | .report streamIDx host => n.server.store.Agrees streamIDx host
  | .ack streamIDx ack => n.Acked streamIDx ack
  | _ => True

/-- An allowed event is handled. -/
def Step (n n' : Namespace) : Prop := ∃ ranges e, n.Allowed e ∧ n' = n.handle ranges e

/-- A stream that neither end has closed. -/
def Connected (n : Namespace) (streamIDx : Nat) : Prop :=
  streamIDx ∈ n.server.streams ∧ (n.sidecar streamIDx).closed = none

end Namespace

end Dapr.SchedulerPlacement
