import Dapr.Lib.Runs
import Dapr.Lib.Threads
/-!
# The lock of an actor

Calls of an actor take turns. A call queues a flight, and the flight at the front of the queue runs.
With reentrancy, a call that carries the id of a flight in the queue joins that flight, up to a maximum
depth. A flight whose calls were all cancelled while it was queued stays where it is, with depth zero,
until the running flight ends and skips it.

What is done under the mutex of the lock is one step. The queue is a list, with the front first, and a
flight is known by the number of its arrival.
-/

namespace Dapr.Actors

/-! ## Configuration -/

structure ReentrancyConfig where
  enabled : Bool
  maxStackDepth : Option Int
  deriving DecidableEq, Repr

structure Config where
  reentrancyEnabled : Bool
  maxStackDepth : Int
  deriving DecidableEq, Repr

def defaultReentrancyStackLimit : Int := 32

/-- The configuration of the lock of an actor type, from what is stored for the type. -/
def Config.new (stored : Option ReentrancyConfig) : Config :=
  match stored with
  | none => ⟨false, defaultReentrancyStackLimit⟩
  | some ree => ⟨ree.enabled, ree.maxStackDepth.getD defaultReentrancyStackLimit⟩

/-! ## The queue -/

/-- A flight of calls that have the lock together. -/
structure Inflight where
  serial : Nat
  id : String
  depth : Nat
  started : Bool
  deriving DecidableEq, Repr

inductive Error where
  | closed
  | cancelled
  | maxStackDepthExceeded
  deriving DecidableEq, Repr

/-- A request is none, or has the values of the header for reentrancy. -/
abbrev Request := Option (List String)

def idFromRequest (cfg : Config) (req : Request) (uuid : String) : String × Bool :=
  match req with
  | none => (uuid, false)
  | some values =>
    if cfg.reentrancyEnabled = false then (uuid, false)
    else
      match values with
      | value :: _ => (value, true)
      | [] => (uuid, true)

/-- A flight with its depth changed, if it is the one. -/
def adjusted (serial : Nat) (f : Nat → Nat) (v : Inflight) : Inflight :=
  if v.serial = serial then { v with depth := f v.depth } else v

def adjust (serial : Nat) (f : Nat → Nat) (inflights : List Inflight) : List Inflight :=
  inflights.map (adjusted serial f)

/-- The queue after a call arrived, and the flight that the call is in. -/
def handleLock (cfg : Config) (next : Nat) (inflights : List Inflight) (id : String) (ok : Bool) :
    Except Error (List Inflight × Nat) :=
  if ok = false ∨ cfg.reentrancyEnabled = false ∨ inflights.length = 0 then
    .ok (inflights ++ [⟨next, id, 1, inflights.head?.isNone⟩], next)
  else
    match inflights.find? (·.id = id) with
    | some v =>
      if (v.depth : Int) + 1 > cfg.maxStackDepth then .error .maxStackDepthExceeded
      else .ok (adjust v.serial (· + 1) inflights, v.serial)
    | none => .ok (inflights ++ [⟨next, id, 1, false⟩], next)

def startFront : List Inflight → List Inflight
  | [] => []
  | v :: rest => { v with started := true } :: rest

/-- Only the running flight, at its end, takes flights off the queue; those without a call are skipped. -/
def advance (serial : Nat) : List Inflight → List Inflight
  | [] => []
  | v :: rest =>
    if 0 < v.depth ∨ v.serial ≠ serial then v :: rest else startFront (rest.dropWhile (·.depth = 0))

def release (serial : Nat) (inflights : List Inflight) : List Inflight :=
  advance serial (adjust serial (· - 1) inflights)

/-! ## Calls -/

/-- A call waits for its flight to start, is granted, and is released. It leaves if it is cancelled, or if
the lock is closed, before it is granted. -/
inductive Pc where
  | calling (req : Request)
  | waiting (serial : Nat)
  | leaving (serial : Nat) (error : Error)
  | granted (serial : Nat)
  | releasing (serial : Nat)
  | ended (error : Option Error)
  deriving DecidableEq, Repr

structure Call where
  id : String
  pc : Pc
  deriving DecidableEq, Repr

/-- `grants` are the flights of the calls that were granted, in order. -/
structure State where
  inflights : List Inflight
  next : Nat
  calls : List Call
  closed : Bool
  grants : List Nat
  deriving DecidableEq, Repr

def State.start : State := ⟨[], 0, [], false, []⟩

inductive Label where
  | call (req : Request)
  | giveUp (i : Nat) (error : Error)
  | lock (i : Nat) (uuid : String)
  | cancel (i : Nat)
  | seeClosed (i : Nat)
  | seeStarted (i : Nat)
  | unlock (i : Nat)
  | release (i : Nat)
  | close
  deriving DecidableEq, Repr

/-- The call goes on to another place. -/
def State.move (s : State) (i : Nat) (id : String) (pc : Pc) : State := { s with calls := s.calls.set i ⟨id, pc⟩ }

def step (cfg : Config) (s : State) : Label → Option State
  | .call req => some { s with calls := s.calls ++ [⟨"", .calling req⟩] }
  -- the context is done, or the lock is closed, before the mutex is taken
  | .giveUp i error =>
    match s.calls[i]? with
    | some ⟨id, .calling _⟩ =>
      if error = .cancelled ∨ error = .closed ∧ s.closed then some (s.move i id (.ended (some error))) else none
    | _ => none
  | .lock i uuid =>
    match s.calls[i]? with
    | some ⟨_, .calling req⟩ =>
      let id := (idFromRequest cfg req uuid).1
      if s.closed then some (s.move i id (.ended (some .closed)))
      else
        match handleLock cfg s.next s.inflights id (idFromRequest cfg req uuid).2 with
        | .ok (inflights, serial) =>
          some { s.move i id (.waiting serial) with inflights, next := s.next + 1 }
        | .error error => some (s.move i id (.ended (some error)))
    | _ => none
  | .cancel i =>
    match s.calls[i]? with
    | some ⟨id, .waiting serial⟩ => some (s.move i id (.leaving serial .cancelled))
    | _ => none
  | .seeClosed i =>
    match s.calls[i]? with
    | some ⟨id, .waiting serial⟩ =>
      if s.closed then some (s.move i id (.leaving serial .closed)) else none
    | _ => none
  | .seeStarted i =>
    match s.calls[i]? with
    | some ⟨id, .waiting serial⟩ =>
      if s.inflights.any (fun v => v.serial = serial && v.started) then
        if s.closed then some (s.move i id (.leaving serial .closed))
        else some { s.move i id (.granted serial) with grants := s.grants ++ [serial] }
      else none
    | _ => none
  | .unlock i =>
    match s.calls[i]? with
    | some ⟨id, .granted serial⟩ => some (s.move i id (.releasing serial))
    | _ => none
  | .release i =>
    match s.calls[i]? with
    | some ⟨id, .leaving serial error⟩ =>
      some { s.move i id (.ended (some error)) with inflights := release serial s.inflights }
    | some ⟨id, .releasing serial⟩ =>
      some { s.move i id (.ended none) with inflights := release serial s.inflights }
    | _ => none
  | .close => some { s with closed := true }

end Dapr.Actors
