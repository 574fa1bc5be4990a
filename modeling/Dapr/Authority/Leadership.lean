import Mathlib.Data.List.Sort
import Dapr.Authority.Handoff
/-!
# Leadership updates

The schedulers that there are come as tables of hosts. For each the scheduler decides which host is
the placement leader, tells its own placement loop whether it leads, and broadcasts the hosts with
that decision to the sidecars. The decision rests on the facts of the handoff, which are read one
after the other; what other threads change in between is seen by some of the reads only.

`moments` records the facts as they were during a run, from its start on, and `outputs` what was
decided.
-/

namespace Dapr.Authority

structure Host where
  address : String
  leader : Bool
  schedulerPlacementEnabled : Bool
  deriving DecidableEq, Repr

def prefer (leader : String) (host : Host) : String :=
  if host.schedulerPlacementEnabled = false then leader
  else if leader = "" ∨ host.address < leader then host.address else leader

/-- The first address of a host that can serve placement, or "" when none can. -/
def placementLeader (hosts : List Host) : String := hosts.foldl prefer ""

/-- How many schedulers there are, and the place of this one. -/
def schedulerPosition (hosts : List Host) (ownAddress : String) : Nat × Nat :=
  if hosts.length < 1 then (1, 0)
  else
    let sorted := (hosts.map Host.address).insertionSort (· ≤ ·)
    (hosts.length, (sorted.findIdx? fun address => address = ownAddress).getD 0)

/-! ## The decision -/

/-- What a run has read of the facts, and whether the placement loop has streams. -/
structure Reads where
  incapable : Bool := false
  capable : Bool := false
  advertised : Bool := false
  placementPresent : Bool := false
  placementConfirmed : Bool := false
  ready : Bool := false
  streams : Bool := false
  deriving DecidableEq, Repr

/-- The facts as they are together. -/
def Handoff.reads (h : Handoff) (streams : Bool) : Reads where
  incapable := h.incapable
  capable := h.capable
  advertised := h.advertised
  placementPresent := h.placementPresent
  placementConfirmed := h.placementConfirmed
  ready := h.ready
  streams := streams

namespace Reads

def gateCapable (r : Reads) : Bool := r.capable || r.streams

def awaitingLeadership (r : Reads) : Bool := r.placementPresent || !r.ready || (!r.advertised && !r.gateCapable)

def leaderAddr (r : Reads) (hosts : List Host) : String := if r.awaitingLeadership then "" else placementLeader hosts

def advertises (r : Reads) (hosts : List Host) : Bool := r.leaderAddr hosts != "" && r.gateCapable && !r.advertised

/-- The hosts as they are broadcast. -/
def stamp (r : Reads) (hosts : List Host) : List Host :=
  hosts.map fun host =>
    { host with
      leader := host.address == r.leaderAddr hosts && r.leaderAddr hosts != ""
      schedulerPlacementEnabled := if r.placementConfirmed then false else host.schedulerPlacementEnabled }

def leads (r : Reads) (hosts : List Host) (ownAddress : String) : Bool :=
  r.leaderAddr hosts != "" && r.leaderAddr hosts == ownAddress

/-- Whether an old sidecar is warned about. -/
def warns (r : Reads) (hosts : List Host) : Bool :=
  r.ready && r.incapable && !r.placementPresent && placementLeader hosts != ""

end Reads

/-! ## Runs of the handler -/

/-- The calls of a run in their order. -/
inductive Call where
  | anyIncapable
  | anyCapable
  | advertised
  | placementPresent
  | placementConfirmed
  | ready
  | hasPlacementStreams
  | setAdvertised
  | setLeader
  | broadcast
  deriving DecidableEq, Repr

def Call.next : Call → Call
  | .anyIncapable => .anyCapable
  | .anyCapable => .advertised
  | .advertised => .placementPresent
  | .placementPresent => .placementConfirmed
  | .placementConfirmed => .ready
  | .ready => .hasPlacementStreams
  | .hasPlacementStreams => .setAdvertised
  | .setAdvertised => .setLeader
  | .setLeader | .broadcast => .broadcast

/-- What a getter of the facts answers is kept. -/
def Reads.read (x : Reads) (h : Handoff) : Call → Reads
  | .anyIncapable => { x with incapable := h.incapable }
  | .anyCapable => { x with capable := h.capable }
  | .advertised => { x with advertised := h.advertised }
  | .placementPresent => { x with placementPresent := h.placementPresent }
  | .placementConfirmed => { x with placementConfirmed := h.placementConfirmed }
  | .ready => { x with ready := h.ready }
  | .hasPlacementStreams | .setAdvertised | .setLeader | .broadcast => x

/-- A table of hosts is handled, call by call. -/
structure Run where
  hosts : List Host
  call : Call
  reads : Reads
  moments : List Handoff
  /-- Whether a placement service was there anew since the run started. -/
  reappeared : Bool

/-- What was sent, with the run that sent it. -/
inductive Output where
  | setLeader (run : Run) (leader : Bool)
  | broadcast (run : Run) (hosts : List Host)

/-- The leadership loop, with all it sent. -/
structure Leadership where
  ownAddress : String
  placement : Bool
  lastCronTable : Option (List Host)
  broadcastHosts : Option (List Host)
  schedulerInfo : Option (Nat × Nat)
  cronReady : Bool
  incapableWarned : Bool
  placementPresentLogged : Bool
  handoff : Handoff
  /-- The requests that the running detection answers. -/
  detection : Option Nat
  run : Option Run
  outputs : List Output

inductive Event where
  | setKubernetesPresence (present : Bool)
  | setLocalCapabilities (incapable capable : Bool)
  | requestDetection (added : Bool)
  | startDetection
  /-- A detection ends, with what it saw unless it was cut short. -/
  | endDetection (sighted : Option Bool)
  | completeReady
  /-- A table of hosts is to be handled, or the last one again. -/
  | handle (anyhosts : Option (List (Option Host)))
  /-- The run makes its next call, with the answer of the placement loop if it is asked. -/
  | call (streams : Bool)
  deriving DecidableEq, Repr

namespace Leadership

def new (ownAddress : String) (placement : Bool) : Leadership where
  ownAddress := ownAddress
  placement := placement
  lastCronTable := none
  broadcastHosts := none
  schedulerInfo := none
  cronReady := false
  incapableWarned := false
  placementPresentLogged := false
  handoff := .new
  detection := none
  run := none
  outputs := []

/-- The facts change; a run that is under way goes on with the new ones. -/
def setHandoff (s : Leadership) (h : Handoff) (reappeared : Bool) : Leadership :=
  { s with
    handoff := h
    run := s.run.map fun r => { r with moments := r.moments ++ [h], reappeared := r.reappeared || reappeared } }

/-- The hosts of an update, unless one of them cannot be decoded. -/
def table (s : Leadership) : Option (List (Option Host)) → Option (List Host)
  | none => s.lastCronTable
  | some anyhosts => anyhosts.mapM id

def handle (s : Leadership) (anyhosts : Option (List (Option Host))) : Leadership :=
  match s.table anyhosts with
  | none => s
  | some hosts =>
    { s with
      lastCronTable := some hosts
      schedulerInfo := some (schedulerPosition hosts s.ownAddress)
      run := some ⟨hosts, .anyIncapable, {}, [s.handoff], false⟩ }

/-- A run makes its next call. -/
def call (s : Leadership) (r : Run) (streams : Bool) : Leadership :=
  match r.call with
  | .hasPlacementStreams =>
    let reads := { r.reads with streams := s.placement && streams }
    { s with
      incapableWarned := reads.warns r.hosts
      run := some { r with call := r.call.next, reads := reads } }
  | .setAdvertised =>
    let s := { s with
      placementPresentLogged := r.reads.placementConfirmed &&
        (s.placementPresentLogged || placementLeader r.hosts != "")
      run := some { r with call := r.call.next } }
    if r.reads.advertises r.hosts then s.setHandoff s.handoff.setAdvertised false else s
  | .setLeader =>
    { s with
      run := some { r with call := r.call.next }
      outputs := if s.placement then s.outputs ++ [.setLeader r (r.reads.leads r.hosts s.ownAddress)] else s.outputs }
  | .broadcast =>
    let hosts := r.reads.stamp r.hosts
    -- sidecars that hold these hosts are not told again
    if s.broadcastHosts = some hosts then { s with run := none }
    else { s with
      run := none
      broadcastHosts := some hosts
      cronReady := true
      outputs := s.outputs ++ [.broadcast r hosts] }
  | getter => { s with run := some { r with call := getter.next, reads := r.reads.read s.handoff getter } }

def step (s : Leadership) : Event → Option Leadership
  | .setKubernetesPresence present =>
    some (s.setHandoff (s.handoff.setKubernetesPresence present) (present && !s.handoff.podPresent))
  | .setLocalCapabilities incapable capable =>
    some (s.setHandoff (s.handoff.setLocalCapabilities incapable capable) false)
  | .requestDetection added => some (s.setHandoff (s.handoff.requestDetection added) false)
  | .startDetection =>
    match s.detection with
    | none => some { s with detection := some s.handoff.reqGen }
    | some _ => none
  | .endDetection sighted =>
    match s.detection, sighted with
    | none, _ => none
    | some _, none => some { s with detection := none }
    | some startGen, some sighted =>
      some { s.setHandoff (s.handoff.refreshDetection startGen sighted) (sighted && !s.handoff.detected) with
        detection := none }
  | .completeReady => some (s.setHandoff s.handoff.completeReady false)
  | .handle anyhosts =>
    match s.run with
    | none => some (s.handle anyhosts)
    | some _ => none
  | .call streams => s.run.map fun r => s.call r streams

end Leadership

end Dapr.Authority
