import Dapr.Placement.Sidecar
/-!
# The disseminator of the placement service

One round at a time covers all streams of a namespace: LOCK, UPDATE, UNLOCK, each once all
streams have acknowledged the one before. A stream without actor types that changes nothing
is pushed the current table by itself, outside of any round. Streams that connect during a
round wait for its end, and deletions are queued.

A stream's loop handles its events in order and drops those of an older version, so what it
sends is settled when they are handed to it: `orders` records that, with `loopVersion` the
version the loop is at.
-/

namespace Dapr.Placement

inductive HostOperation where
  | unknown
  | report
  | lock
  | update
  | unlock
  deriving DecidableEq, Repr

def OrderOp.hostOperation : OrderOp → HostOperation
  | .lock => .lock
  | .update => .update
  | .unlock => .unlock

structure StreamConn where
  currentState : HostOperation
  /-- The version of a table that was pushed to this stream alone. -/
  receivingTable : Option Nat

/-- What a stream sends: a report or an ack. -/
structure ReportedHost where
  streamIDx : Nat
  op : HostOperation
  version : Option Nat
  host : Host

/-- The loop of a namespace, with all orders it sent. -/
structure Disseminator where
  coalesceWindow : Int
  streams : List Nat
  conns : Nat → StreamConn
  streamsInTargetState : Int
  store : Store
  streamIDx : Nat
  coalesceTimer : Bool
  currentOperation : HostOperation
  currentVersion : Nat
  waitingToDisseminate : List Host
  waitingToDelete : List Nat
  loopVersion : Nat → Option Nat
  orders : Nat → List Order

/-- The order in which the stored hosts are ranged over for the tables of a stream. -/
structure Ranges where
  hosts : Nat → List HostEntry → List HostEntry
  hosts_perm : ∀ i l, (hosts i l).Perm l

def Ranges.inOrder : Ranges := ⟨fun _ => id, fun _ _ => .refl _⟩

namespace Disseminator

def new (coalesceWindow : Int) : Disseminator where
  coalesceWindow := coalesceWindow
  streams := []
  conns := fun _ => ⟨.report, none⟩
  streamsInTargetState := 0
  store := .new
  streamIDx := 0
  coalesceTimer := false
  currentOperation := .report
  currentVersion := 0
  waitingToDisseminate := []
  waitingToDelete := []
  loopVersion := fun _ => none
  orders := fun _ => []

/-! ## Stream loops -/

def send (d : Disseminator) (sent : Nat → List Order) : Disseminator :=
  { d with orders := fun i => d.orders i ++ sent i }

def tables (ranges : Ranges) (d : Disseminator) (i : Nat) : AList fun _ : String => Table :=
  Store.placementTables (ranges.hosts i d.store.hosts.entries)

/-- Whether a loop passes on a LOCK: it has not seen a later version. -/
def passesLock (d : Disseminator) (i version : Nat) : Bool :=
  match d.loopVersion i with
  | none => true
  | some current => current ≤ version

def disseminateLock (d : Disseminator) : Disseminator :=
  let passes := fun i => i ∈ d.streams ∧ d.passesLock i d.currentVersion = true
  { d.send fun i => if passes i then [.lock d.currentVersion] else [] with
    loopVersion := fun i => if passes i then some d.currentVersion else d.loopVersion i }

def disseminateUpdate (ranges : Ranges) (d : Disseminator) : Disseminator :=
  d.send fun i => if i ∈ d.streams ∧ d.loopVersion i = some d.currentVersion then
    [.update d.currentVersion (d.tables ranges i)] else []

def disseminateUnlock (d : Disseminator) : Disseminator :=
  d.send fun i => if i ∈ d.streams ∧ d.loopVersion i = some d.currentVersion then [.unlock d.currentVersion] else []

def disseminateTable (ranges : Ranges) (d : Disseminator) (streamIDx : Nat) : Disseminator :=
  let conn := { d.conns streamIDx with receivingTable := some d.currentVersion }
  { d.send fun i => if i = streamIDx then
      [.lock d.currentVersion, .update d.currentVersion (d.tables ranges i), .unlock d.currentVersion] else [] with
    conns := Function.update d.conns streamIDx conn }

/-! ## Rounds -/

def lockAll (d : Disseminator) : Disseminator :=
  { d.disseminateLock with
    currentOperation := .lock
    conns := fun i => if i ∈ d.streams then ⟨.report, none⟩ else d.conns i }

def startRound (d : Disseminator) : Disseminator :=
  lockAll { d with currentVersion := d.currentVersion + 1, streamsInTargetState := 0 }

def updateAll (ranges : Ranges) (d : Disseminator) : Disseminator :=
  { d.disseminateUpdate ranges with currentOperation := .update, streamsInTargetState := 0 }

def unlockAll (d : Disseminator) : Disseminator :=
  { d.disseminateUnlock with currentOperation := .unlock, streamsInTargetState := 0 }

def startCoalesceTimer (d : Disseminator) : Disseminator :=
  if d.coalesceWindow ≤ 0 ∨ d.coalesceTimer = true then d else { d with coalesceTimer := true }

def addStream (d : Disseminator) : Disseminator :=
  { d with
    streamIDx := d.streamIDx + 1
    streams := d.streams ++ [d.streamIDx]
    conns := Function.update d.conns d.streamIDx ⟨.report, none⟩
    loopVersion := Function.update d.loopVersion d.streamIDx none }

def applyDeletes (d : Disseminator) : Disseminator :=
  { d with store := d.store.deleteAll d.waitingToDelete, waitingToDelete := [] }

def processWaitingDeletes (d : Disseminator) : Disseminator :=
  if d.waitingToDelete = [] ∨ d.streams = [] then d else d.applyDeletes.startRound

/-- Connect the waiting streams; and whether that changed the store, and which they are. -/
def addWaiting (d : Disseminator) : List Host → Disseminator × Bool × List Nat
  | [] => (d, false, [])
  | host :: rest =>
    let i := d.streamIDx
    let d := d.addStream
    let (changed, store) := d.store.set i host
    let (d, changed', added) := addWaiting { d with store := store } rest
    (d, changed || changed', i :: added)

def processWaitingDisseminate (ranges : Ranges) (d : Disseminator) (forceRound : Bool) : Disseminator :=
  if d.waitingToDisseminate = [] then d
  else
    let waiting := d.waitingToDisseminate
    let (d, changed, added) := addWaiting { d with waitingToDisseminate := [] } waiting
    if forceRound = true ∨ changed = true then d.startRound
    else (added.filter fun i => i ∈ d.streams ∧ d.store.has i = false).foldl (disseminateTable ranges) d

def finishRound (ranges : Ranges) (d : Disseminator) : Disseminator :=
  if 0 < d.coalesceWindow then d.startCoalesceTimer
  else if d.waitingToDelete ≠ [] then d.processWaitingDeletes
  else d.processWaitingDisseminate ranges false

/-! ## Reports and acks -/

def doReport (ranges : Ranges) (d : Disseminator) (streamIDx : Nat) (host : Host) : Disseminator :=
  let (changed, store) := d.store.set streamIDx host
  if changed = true then startRound { d with store := store }
  else if streamIDx ∈ d.streams ∧ d.store.has streamIDx = false then d.disseminateTable ranges streamIDx
  else d

/-- Note that a stream has reached the state of the phase. -/
def reach (d : Disseminator) (streamIDx : Nat) (op : HostOperation) : Disseminator :=
  if (d.conns streamIDx).currentState ≠ op then
    { d with
      conns := Function.update d.conns streamIDx { d.conns streamIDx with currentState := op }
      streamsInTargetState := d.streamsInTargetState + 1 }
  else d

def handleReportedLock (ranges : Ranges) (d : Disseminator) (streamIDx : Nat) : Disseminator :=
  if streamIDx ∉ d.streams then d
  else
    let d := d.reach streamIDx .lock
    if d.streamsInTargetState = d.streams.length then d.updateAll ranges else d

def handleReportedUpdate (d : Disseminator) (streamIDx : Nat) : Disseminator :=
  if streamIDx ∉ d.streams then d
  else
    let d := d.reach streamIDx .update
    if d.streamsInTargetState = d.streams.length then d.unlockAll else d

def handleReportedUnlock (ranges : Ranges) (d : Disseminator) (streamIDx : Nat) : Disseminator :=
  if streamIDx ∉ d.streams then d
  else
    let d := d.reach streamIDx .unlock
    if d.streamsInTargetState = d.streams.length then
      finishRound ranges { d with
        currentOperation := .report
        streamsInTargetState := 0
        waitingToDelete := d.waitingToDelete ++ d.store.collectOrphans d.streams }
    else d

/-- What is done with a message that is not of an old version. -/
def handleCurrent (ranges : Ranges) (d : Disseminator) (report : ReportedHost) (op : HostOperation) : Disseminator :=
  let receiving := (d.conns report.streamIDx).receivingTable
  if report.streamIDx ∈ d.streams ∧ receiving ≠ none ∧ op ≠ .report ∧ report.version = receiving then
    -- the answer to a table that was pushed to this stream alone
    let conn := { d.conns report.streamIDx with receivingTable := none }
    if op = .unlock then { d with conns := Function.update d.conns report.streamIDx conn } else d
  else if op ≠ .report ∧ op ≠ d.currentOperation then d
  else match op with
    | .unknown => d
    | .report => d.doReport ranges report.streamIDx report.host
    | .lock => d.handleReportedLock ranges report.streamIDx
    | .update => d.handleReportedUpdate report.streamIDx
    | .unlock => d.handleReportedUnlock ranges report.streamIDx

def isOld (d : Disseminator) (version : Option Nat) : Bool :=
  match version with
  | none => false
  | some version => version < d.currentVersion

def handleReportedHost (ranges : Ranges) (d : Disseminator) (report : ReportedHost) : Disseminator :=
  -- old clients do not name the operation
  let op := if report.op = .unknown then d.currentOperation else report.op
  if d.isOld report.version = true then d else d.handleCurrent ranges report op

/-! ## Events -/

def handleAdd (ranges : Ranges) (d : Disseminator) (initialHost : Host) : Disseminator :=
  if d.currentOperation ≠ .report ∨ d.coalesceTimer = true then
    { d with waitingToDisseminate := d.waitingToDisseminate ++ [initialHost] }
  else
    let d := d.applyDeletes
    let d := applyDeletes { d with waitingToDelete := d.store.collectOrphans d.streams }
    d.addStream.handleReportedHost ranges ⟨d.streamIDx, .report, none, initialHost⟩

def advancePhase (ranges : Ranges) (d : Disseminator) : Disseminator :=
  if d.streamsInTargetState < d.streams.length then d
  else match d.currentOperation with
    | .lock => d.updateAll ranges
    | .update => d.unlockAll
    | .unlock => finishRound ranges { d with currentOperation := .report, streamsInTargetState := 0 }
    | _ => d

def dropStream (d : Disseminator) (streamIDx : Nat) : Disseminator :=
  { d with
    streamsInTargetState :=
      if (d.conns streamIDx).currentState = d.currentOperation ∧ d.currentOperation ≠ .report then
        d.streamsInTargetState - 1
      else d.streamsInTargetState
    streams := d.streams.filter fun i => i ≠ streamIDx }

def handleCloseStream (ranges : Ranges) (d : Disseminator) (streamIDx : Nat) : Disseminator :=
  if streamIDx ∉ d.streams then d
  else
    let d := d.dropStream streamIDx
    if d.streams = [] then d
    else if d.store.has streamIDx = false then d
    else
      let d := { d with waitingToDelete := d.waitingToDelete ++ [streamIDx] }
      if d.currentOperation ≠ .report then
        if (d.streams.length : Int) ≤ d.streamsInTargetState then d.advancePhase ranges else d
      else if d.coalesceTimer = true then d
      else d.processWaitingDeletes

def handleTimeout (d : Disseminator) (version : Nat) : Disseminator :=
  if version ≠ d.currentVersion then d
  else
    let late := d.streams.filter fun i => (d.conns i).currentState ≠ d.currentOperation
    let d := applyDeletes { d with
      store := d.store.deleteAll late
      streams := d.streams.filter fun i => (d.conns i).currentState = d.currentOperation }
    let d := { d with currentVersion := d.currentVersion + 1, currentOperation := .report, streamsInTargetState := 0 }
    let waiting := d.waitingToDisseminate
    let d := (addWaiting { d with waitingToDisseminate := [] } waiting).1
    if d.streams = [] then d else d.lockAll

def handleCoalesceFire (ranges : Ranges) (d : Disseminator) : Disseminator :=
  let d := { d with coalesceTimer := false }
  if d.waitingToDelete ≠ [] ∧ d.waitingToDisseminate = [] then d.processWaitingDeletes
  else d.applyDeletes.processWaitingDisseminate ranges (d.waitingToDelete ≠ [])

end Disseminator

/-! ## The namespace and its sidecars -/

/-- The disseminator, and how many of their orders the sidecars have handled. -/
structure Namespace where
  server : Disseminator
  seen : Nat → Nat

inductive Event where
  | add (initialHost : Host)
  | report (streamIDx : Nat) (host : Host)
  | ack (streamIDx : Nat) (ack : Ack)
  | close (streamIDx : Nat)
  | timeout (version : Nat)
  | coalesceFire
  | deliver (streamIDx : Nat)

namespace Namespace

def new (coalesceWindow : Int) : Namespace := ⟨.new coalesceWindow, fun _ => 0⟩

def sidecar (n : Namespace) (streamIDx : Nat) : Sidecar :=
  Placement.sidecar.after (n.server.orders streamIDx) (n.seen streamIDx)

/-- The sidecar sent the ack: it is the answer to an order it handled. -/
def Acked (n : Namespace) (streamIDx : Nat) (ack : Ack) : Prop :=
  ∃ q o, (n.server.orders streamIDx)[q]? = some o ∧ q < n.seen streamIDx ∧
    ((Placement.sidecar.after (n.server.orders streamIDx) q).handleOrder o).2 = some ack

def handle (ranges : Ranges) (n : Namespace) : Event → Namespace
  | .add initialHost => { n with server := n.server.handleAdd ranges initialHost }
  | .report streamIDx host =>
    { n with server := n.server.handleReportedHost ranges ⟨streamIDx, .report, none, host⟩ }
  | .ack streamIDx ack =>
    let host : Host := ⟨"", 0, "", "", []⟩
    { n with server :=
        n.server.handleReportedHost ranges ⟨streamIDx, ack.op.hostOperation, some ack.version, host⟩ }
  | .close streamIDx => { n with server := n.server.handleCloseStream ranges streamIDx }
  | .timeout version => { n with server := n.server.handleTimeout version }
  | .coalesceFire => { n with server := n.server.handleCoalesceFire ranges }
  | .deliver streamIDx =>
    let next := min (n.seen streamIDx + 1) (n.server.orders streamIDx).length
    { n with seen := Function.update n.seen streamIDx next }

/-- The events that can happen: a stream reports once it is connected, and an ack answers an order. -/
def Allowed (n : Namespace) : Event → Prop
  | .report streamIDx _ => streamIDx < n.server.streamIDx
  | .ack streamIDx ack => n.Acked streamIDx ack
  | _ => True

/-- A stream that neither end has closed. -/
def Connected (n : Namespace) (streamIDx : Nat) : Prop :=
  streamIDx ∈ n.server.streams ∧ (n.sidecar streamIDx).closed = none

end Namespace

end Dapr.Placement
