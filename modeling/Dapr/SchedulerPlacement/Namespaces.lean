import Dapr.SchedulerPlacement.Connections
/-!
# The namespaces of the placement leader

A loop for all namespaces hands the events of the streams to the controller of their namespace, a
loop of its own that is created with the first stream of the namespace. It is shut down when its
streams are gone, or when the scheduler is not the leader any more. The handler waits for that: for
all streams of the controller to end, each of which reports its own end to the loop that waits.

An event names its stream by the namespace and the index of the stream. A controller numbers its
streams from zero on, so the index says which stream is meant only among those of one controller.
The controller that a stream belongs to is written with its events here, and no handler looks at it.
-/

namespace Dapr.SchedulerPlacement

/-- A stream, by the controller that it is registered with and its index there. -/
structure StreamId where
  controller : Nat
  idx : Nat
  deriving DecidableEq, Repr

inductive StreamEvent where
  | reportedTypes (host : ActorHost)
  | ack (ack : Ack)
  | connCloseStream

def StreamEvent.forController (streamIDx : Nat) : StreamEvent → EventConnections
  | .reportedTypes host => .reportedTypes streamIDx host
  | .ack a => .ack streamIDx a
  | .connCloseStream => .connCloseStream streamIDx

inductive EventNamespace where
  | connAdd (ns : String) (initial : ActorHost)
  | setLeader (leader : Bool)
  | stream (emitter : StreamId) (ns : String) (event : StreamEvent)
  | connCloseNamespace (ns : String)

/-- An event in the queue of a controller, with the stream that it came from. -/
structure Delivery where
  emitter : Option StreamId
  event : EventConnections

/-- Whether its end was reported, and is over. -/
structure StreamStatus where
  closed : Bool
  ended : Bool
  deriving DecidableEq, Repr

/-- The loop of a controller. -/
structure ConnectionsLoop where
  ns : String
  connections : Nat
  queue : List Delivery
  controller : Connections
  /-- The streams it was the controller of, by their indices. -/
  streams : List StreamStatus
  down : Bool

def ConnectionsLoop.enqueue (l : ConnectionsLoop) (d : Delivery) : ConnectionsLoop := { l with queue := l.queue ++ [d] }

/-- The loop for all namespaces, with its controllers. -/
structure Namespaces where
  coalesceWindow : Int
  accepting : Bool
  namespaces : AList fun _ : String => Nat
  queue : List EventNamespace
  /-- All controllers there were, and how many. -/
  loops : Nat → ConnectionsLoop
  created : Nat
  /-- The controllers that the handler waits for to shut down. -/
  closing : List Nat

namespace Namespaces

def new (coalesceWindow : Int) : Namespaces where
  coalesceWindow := coalesceWindow
  accepting := false
  namespaces := ∅
  queue := []
  loops := fun _ => ⟨"", 0, [], .new coalesceWindow, [], false⟩
  created := 0
  closing := []

def setLoop (n : Namespaces) (k : Nat) (l : ConnectionsLoop) : Namespaces :=
  { n with loops := Function.update n.loops k l }

def enqueue (n : Namespaces) (e : EventNamespace) : Namespaces := { n with queue := n.queue ++ [e] }

/-! ## The loop for all namespaces -/

def handleAdd (n : Namespaces) (ns : String) (initial : ActorHost) : Namespaces :=
  if n.accepting = false then n
  else match n.namespaces.lookup ns with
    | some k =>
      n.setLoop k { (n.loops k).enqueue ⟨none, .connAdd initial⟩ with connections := (n.loops k).connections + 1 }
    | none =>
      { n.setLoop n.created ⟨ns, 1, [⟨none, .connAdd initial⟩], .new n.coalesceWindow, [], false⟩ with
        created := n.created + 1
        namespaces := n.namespaces.insert ns n.created }

def close (n : Namespaces) (closing : List Nat) : Namespaces :=
  { n with
    loops := fun k => if k ∈ closing then (n.loops k).enqueue ⟨none, .shutdown⟩ else n.loops k
    closing := closing }

def closeAll (n : Namespaces) : Namespaces :=
  { n.close (n.namespaces.entries.map Sigma.snd) with namespaces := ∅ }

def handleSetLeader (n : Namespaces) (leader : Bool) : Namespaces :=
  if leader = n.accepting then n
  else if leader = true then { n with accepting := leader }
  else closeAll { n with accepting := leader }

/-- Hand an event to the controller of the namespace; a stream that closed is not counted any more. -/
def route (n : Namespaces) (emitter : StreamId) (ns : String) (event : StreamEvent) : Namespaces :=
  match n.namespaces.lookup ns with
  | none => n
  | some k =>
    let l := n.loops k
    let connections := match event with
      | .connCloseStream => l.connections - 1
      | _ => l.connections
    n.setLoop k { l.enqueue ⟨some emitter, event.forController emitter.idx⟩ with connections := connections }

def handleCloseNamespace (n : Namespaces) (ns : String) : Namespaces :=
  match n.namespaces.lookup ns with
  | none => n
  | some k => if (n.loops k).connections ≠ 0 then n else { n.close [k] with namespaces := n.namespaces.erase ns }

def handle (n : Namespaces) : EventNamespace → Namespaces
  | .connAdd ns initial => n.handleAdd ns initial
  | .setLeader leader => n.handleSetLeader leader
  | .stream emitter ns event => n.route emitter ns event
  | .connCloseNamespace ns => n.handleCloseNamespace ns

/-! ## Controllers and streams -/

def handled (n : Namespaces) (k : Nat) (l : ConnectionsLoop) (event : EventConnections) : Namespaces :=
  match event with
  | .connAdd _ => n.setLoop k { l with streams := l.streams ++ [⟨false, false⟩] }
  | .connCloseStream _ =>
    if l.controller.streams = [] then (n.setLoop k l).enqueue (.connCloseNamespace l.ns) else n.setLoop k l
  | .shutdown => n.setLoop k { l with down := true }
  | _ => n.setLoop k l

/-- The end of a stream is reported once. -/
def closeStream (n : Namespaces) (id : StreamId) (s : StreamStatus) : Namespaces :=
  let l := n.loops id.controller
  if s.closed = true then n
  else (n.setLoop id.controller { l with streams := l.streams.set id.idx { s with closed := true } }).enqueue
    (.stream id l.ns .connCloseStream)

def endStream (n : Namespaces) (id : StreamId) : Namespaces :=
  let l := n.loops id.controller
  n.setLoop id.controller { l with streams := l.streams.set id.idx ⟨true, true⟩ }

/-- A stream that may still tell something. -/
def running (n : Namespaces) (id : StreamId) : Option StreamStatus :=
  ((n.loops id.controller).streams[id.idx]?).filter fun s => !s.ended

/-- What the loops and streams do. -/
inductive Action where
  | connect (ns : String) (initial : ActorHost)
  | setLeader (leader : Bool)
  /-- The loop for all namespaces handles its next event. -/
  | dispatch
  | closed (controller : Nat)
  | serve (ranges : Ranges) (controller : Nat)
  /-- A timer of a controller fires: that of a round, or of the coalesce window. -/
  | timer (ranges : Ranges) (controller : Nat) (round : Option Nat)
  | report (id : StreamId) (host : ActorHost)
  | ack (id : StreamId) (ack : Ack)
  /-- A stream cannot send. -/
  | sendError (id : StreamId)
  | recvError (id : StreamId)

def next (n : Namespaces) : Action → Option Namespaces
  | .connect ns initial => some (n.enqueue (.connAdd ns initial))
  | .setLeader leader => some (n.enqueue (.setLeader leader))
  | .dispatch =>
    match n.closing, n.queue with
    | [], e :: rest => some (handle { n with queue := rest } e)
    | _, _ => none
  | .closed k =>
    if k ∈ n.closing ∧ (n.loops k).down = true ∧ (n.loops k).streams.all StreamStatus.ended = true then
      some { n with closing := n.closing.filter fun k' => k' ≠ k }
    else none
  | .serve ranges k =>
    match (n.loops k).down, (n.loops k).queue with
    | false, d :: rest =>
      let l := n.loops k
      some (n.handled k { l with queue := rest, controller := l.controller.handle ranges d.event } d.event)
    | _, _ => none
  | .timer ranges k round =>
    let l := n.loops k
    let event := match round with
      | some seq => EventConnections.roundTimeout seq
      | none => .coalesceFire
    if k < n.created ∧ l.down = false then
      some (n.setLoop k { l with controller := l.controller.handle ranges event })
    else none
  | .report id host =>
    (n.running id).map fun _ => n.enqueue (.stream id (n.loops id.controller).ns (.reportedTypes host))
  | .ack id ack => (n.running id).map fun _ => n.enqueue (.stream id (n.loops id.controller).ns (.ack ack))
  | .sendError id => (n.running id).map fun s => n.closeStream id s
  | .recvError id => (n.running id).map fun s => (n.closeStream id s).endStream id

end Namespaces

end Dapr.SchedulerPlacement
