import Dapr.Workflow.Admission
/-!
# Turns

A turn hands the inbox and the held completions to the engine and saves what comes back.
`runWorkflow` follows a turn from the reminder that drives it to each of its exits: nothing
to do, an instance that cannot start, a payload that is too large, an engine that fails,
gives up or stalls, a dispatch that fails in part, and the commit.
-/

namespace Dapr.Workflow

/-- What the engine returns from a turn. -/
structure EngineState extends WorkflowRuntimeState where
  completed : Bool
  startEvent : Option ExecutionStartedEvent
  /-- Why the workflow cannot go on: a stalled message, or patches that do not match. -/
  stalled : Option String
  deriving DecidableEq, Repr

/-- What became of a work item. -/
inductive EngineResult where
  /-- The work item was never accepted. -/
  | notScheduled
  | cancelled
  | abandoned (rs : EngineState)
  | finished (rs : EngineState)
  deriving DecidableEq, Repr

/-- What comes of scheduling the steps of a turn. -/
inductive Dispatch where
  | ok
  | payloadSizeExceeded (description : String)
  /-- The ids of the events that were not dispatched, and whether any step is remote. -/
  | failed (failedEventIDs : List Int) (remote : Bool)
  deriving DecidableEq, Repr

/-- What drives a turn. -/
inductive Reminder where
  | wake
  | timer (generation : Nat) (timerEvent : HistoryEvent)
  | cascadeTerminate (cascadeEvent : HistoryEvent)
  /-- A timer or cascade whose data cannot be read. -/
  | malformed
  deriving DecidableEq, Repr

/-- How the other parties of a turn act. -/
structure TurnEnv extends Env where
  reminder : Reminder
  /-- Whether the store confirms an empty cached inbox; absent when it does not answer. -/
  inboxCurrent : Option Bool
  /-- The description of a payload that is too large. -/
  oversize : Option String
  janitor : Bool
  engine : EngineResult
  /-- Whether timers, outbound messages and outgoing histories are dealt with. -/
  sideEffects : Bool
  dispatch : Dispatch
  terminalJanitor : Bool
  stallSave : SaveOutcome

def errorTypeUnstartableState : String := "DAPR_WORKFLOW_UNSTARTABLE_STATE"

def isExecutionTerminated (e : HistoryEvent) : Bool :=
  match e.eventType with
  | .executionTerminated _ => true
  | _ => false

theorem eventType_of_executionTerminated {e : HistoryEvent} (h : isExecutionTerminated e = true) :
    ∃ b, e.eventType = .executionTerminated b := by
  unfold isExecutionTerminated at h
  split at h
  · next b heq => exact ⟨b, heq⟩
  · cases h

def isDispatchableEvent (e : HistoryEvent) : Bool :=
  match e.eventType with
  | .taskScheduled _ => true
  | .childWorkflowInstanceCreated _ => true
  | .detachedWorkflowInstanceCreated => true
  | _ => false

def stalledDescription (e : HistoryEvent) : Option String :=
  match e.eventType with
  | .executionStalled description => some description
  | _ => none

theorem eventType_of_stalled {e : HistoryEvent} (h : (stalledDescription e).isSome = true) :
    ∃ description, e.eventType = .executionStalled description := by
  unfold stalledDescription at h
  split at h
  · next description heq => exact ⟨description, heq⟩
  · cases h

def executionStalledEvent (description : String) (now : Int) : HistoryEvent where
  eventId := -1
  timestamp := some now
  router := none
  eventType := .executionStalled description

def executionStartedEvent (start : ExecutionStartedEvent) (now : Int) : HistoryEvent where
  eventId := -1
  timestamp := some now
  router := none
  eventType := .executionStarted start

/-- The failure of an instance that holds inbox events but no start. -/
def unstartableFailure (inboxLength : Nat) (now : Int) : HistoryEvent where
  eventId := -1
  timestamp := some now
  router := none
  eventType := .executionCompleted ⟨.failed, some ⟨errorTypeUnstartableState,
    s!"workflow instance holds {inboxLength} inbox event(s) but an empty history and no pending ExecutionStarted; the committed start event was lost and the instance can never progress"⟩⟩

def pinExecutionID (id : String) (e : HistoryEvent) : HistoryEvent :=
  match e.eventType with
  | .executionStarted start => { e with eventType := .executionStarted { start with executionId := some id } }
  | _ => e

section Turn
variable {B : Type}

def State.addAllToInbox (s : State B) (events : List HistoryEvent) : State B := events.foldl State.addToInbox s

namespace Orchestrator

/-! ## Before the engine runs -/

/-- Put a fired timer or a cascaded termination into the inbox. `none` ends the turn. -/
def injectReminderEvent (o : Orchestrator) (env : TurnEnv) (s : State B) : Option (State B) :=
  if o.runtime.isCompleted s.history then some s
  else match env.reminder with
    | .wake => some s
    | .malformed => none
    | .timer generation e =>
      if generation < s.generation then none
      -- a crafted reminder could hold any event
      else if !e.isTimerFired then none
      else some (s.appendInbox { e with timestamp := some env.now })
    | .cascadeTerminate e =>
      if !isExecutionTerminated e then none
      else some (s.appendInbox { e with timestamp := some env.now })

def reload (o : Orchestrator) (env : TurnEnv) (a : Actor B) : Option (State B) × Actor B :=
  match o.loadInternalState { env.toEnv with loads := env.reloads } a.invalidateCachedState with
  | (.error _, a) => (none, a)
  | (.ok s, a) => (s, a)

/-- A turn with nothing to do ends, once the store confirms that there is nothing. -/
def handleEmptyInbox (o : Orchestrator) (env : TurnEnv) (fresh : Bool) (a : Actor B) (s : State B) :
    Option (State B) × Actor B :=
  if !s.inbox.isEmpty || !a.held.pending.isEmpty then (some s, a)
  else
    let completed := o.runtime.isCompleted s.history
    if fresh then (none, a)
    else if !completed && env.inboxCurrent.isNone then (none, a)
    else if !completed && env.inboxCurrent = some true then (none, a)
    else match o.reload env a with
      | (none, a) => (none, a)
      | (some s, a) => if s.inbox.isEmpty then (none, a) else (some s, a)

/-- Fail an instance whose start was lost. -/
def failUnstartableWorkflow (o : Orchestrator) (env : TurnEnv) (a : Actor B) (s : State B) : Actor B :=
  let started := executionStartedEvent ⟨"", none, o.actorID, none, none, none, none⟩ env.now
  let failed := unstartableFailure s.inbox.length env.now
  (a.save ((s.addToHistory started).addToHistory failed).clearInbox env.save).2

/-- End a turn whose cached view disagrees with the durable one about the start. -/
def classifyStartability (o : Orchestrator) (env : TurnEnv) (a : Actor B) (s : State B) :
    Option (State B) × Actor B :=
  let pendingStart := s.inbox.any fun e => e.getExecutionStarted.isSome
  if o.runtime.isCompleted s.history && (pendingStart || s.history.isEmpty) then (none, a.invalidateCachedState)
  else if !pendingStart && s.history.isEmpty then
    match o.reload env a with
    | (none, a) => (none, a)
    | (some s, a) =>
      if isUnstartableState s.history s.inbox then (none, o.failUnstartableWorkflow env a s) else (none, a)
  else (some s, a)

/-! ## Saves of a turn -/

/-- Record that the workflow is stalled. The new events of the turn are dropped and the inbox
is kept; the cache is dropped. -/
def stallWorkflow (env : TurnEnv) (outcome : SaveOutcome) (a : Actor B) (s : State B) (rs : WorkflowRuntimeState)
    (description : String) : Actor B :=
  let oldEvents := if rs.continuedAsNew then [] else s.history
  let known := oldEvents.getLast?.bind stalledDescription = some description
  if rs.newEvents.isEmpty && known then a.invalidateCachedState
  else
    let newEvents := if known then [] else [executionStalledEvent description env.now]
    (a.save (s.applyRuntimeStateChanges { rs with newEvents := newEvents }) outcome).2.invalidateCachedState

/-- Stall a turn whose payload is too large, after moving the held completions it took into
the inbox. The flag says whether they were saved. -/
def guardPayloadSize (env : TurnEnv) (a : Actor B) (s : State B) (folded : List FoldEntry) (description : String) :
    Bool × Actor B :=
  let rs : WorkflowRuntimeState := ⟨false, [], s.customStatus⟩
  if folded.isEmpty then (false, stallWorkflow env env.stallSave a s rs description)
  else
    let s := s.addAllToInbox (folded.map FoldEntry.event)
    match a.save s env.save with
    | (false, a) => (false, a)
    | (true, a) =>
      if !env.janitor then (false, a)
      else
        let s := s.resetChangeTracking.setMetadataETag (some a.etag)
        (true, stallWorkflow env env.stallSave a s rs description)

/-- An abandoned execution that continued as new is saved as a pending start: no history, the
start of the new generation and the events carried over in the inbox. -/
def saveContinuedAsNew (env : TurnEnv) (a : Actor B) (s : State B) (rs : EngineState) : Bool × Actor B :=
  let started := (rs.newEvents.filter fun e => e.getExecutionStarted.isSome).getLast?
  let carryover := rs.newEvents.filter isEventRaised
  match started.or (rs.startEvent.map fun start => executionStartedEvent start env.now) with
  | none => (false, a.invalidateCachedState)
  | some start =>
    let s := (s.applyRuntimeStateChanges { rs.toWorkflowRuntimeState with newEvents := [] }).clearInbox
    let s := (s.addToInbox start).addAllToInbox carryover
    a.save { s with generation := s.generation + 1 } env.save

/-- Save a first turn of which some dispatches failed: their events are withheld, and the
inbox is kept so that the turn is run again. -/
def savePartialDispatch (env : TurnEnv) (a : Actor B) (s : State B) (rs : WorkflowRuntimeState)
    (failedEventIDs : List Int) : Actor B :=
  let dispatched := rs.newEvents.filter fun e => !(isDispatchableEvent e && failedEventIDs.contains e.eventId)
  (a.save (s.applyRuntimeStateChanges { rs with newEvents := dispatched }) env.save).2

/-- The save that ends a turn: the new events go to history, and results that came before
their step stay in the inbox. -/
def commitTurn (env : TurnEnv) (a : Actor B) (s : State B) (rs : WorkflowRuntimeState) (early : List HistoryEvent) :
    Bool × Actor B :=
  a.save ((s.applyRuntimeStateChanges rs).clearInbox.addAllToInbox early) env.save

/-! ## After the engine ran -/

/-- The new generation gets an execution id that a second run of the turn gives it again. -/
def pinGenerationExecutionID (o : Orchestrator) (s : State B) (rs : WorkflowRuntimeState) : WorkflowRuntimeState :=
  let seed := if s.executionID = "" then o.actorID else s.executionID
  let generation := s.generation
  { rs with newEvents := rs.newEvents.map (pinExecutionID (o.uuid s!"{seed}/{generation}")) }

/-- What is done with the result of a finished execution. The flag says whether the completions
the turn took were saved. -/
def finishTurn (o : Orchestrator) (env : TurnEnv) (a : Actor B) (s : State B) (rs : EngineState) : Bool × Actor B :=
  match rs.stalled with
  | some description => (false, stallWorkflow env env.stallSave a s rs.toWorkflowRuntimeState description)
  | none =>
    let (filtered, early) :=
      stripUnmatchedResolutions s.history rs.newEvents (!rs.completed && !rs.continuedAsNew)
    let rs' : WorkflowRuntimeState := { rs.toWorkflowRuntimeState with newEvents := filtered }
    -- a response that creates a step again is an old one delivered late
    if !rs.continuedAsNew && (staleTurnDuplicate s.history filtered).isSome then (false, a.invalidateCachedState)
    else
      let s := if rs.continuedAsNew then { s with generation := s.generation + 1 } else s
      let final := if rs.continuedAsNew then o.pinGenerationExecutionID s rs' else rs'
      if !env.sideEffects then (false, a.invalidateCachedState)
      else match env.dispatch with
        | .payloadSizeExceeded description => (false, stallWorkflow env env.stallSave a s final description)
        | .failed failedEventIDs remote =>
          if s.history.isEmpty && remote then (false, savePartialDispatch env a s final failedEventIDs)
          else (false, a.invalidateCachedState)
        | .ok =>
          if rs.completed && !env.terminalJanitor then (false, a.invalidateCachedState)
          else commitTurn env a s final early

/-- Run the engine on the inbox and the completions taken. -/
def execute (o : Orchestrator) (env : TurnEnv) (a : Actor B) (s : State B) (folded : List FoldEntry) : Bool × Actor B :=
  match env.oversize with
  | some description => guardPayloadSize env a s folded description
  | none =>
    match env.engine with
    -- the engine has not touched the state
    | .notScheduled => (false, a)
    | .cancelled => (false, a.invalidateCachedState)
    | .abandoned rs =>
      if rs.continuedAsNew then saveContinuedAsNew env a s rs else (false, a.invalidateCachedState)
    | .finished rs => o.finishTurn env a s rs

/-- What a turn starts from: the state it runs on, or nothing when it ends before the engine
runs. -/
def prepareTurn (o : Orchestrator) (env : TurnEnv) (a : Actor B) : Option (State B) × Actor B :=
  let fresh := a.cached.isNone
  match o.loadInternalState env.toEnv a with
  | (.error _, a) => (none, a)
  | (.ok none, a) => (none, a)
  | (.ok (some s), a) =>
    match o.injectReminderEvent env s with
    | none => (none, a)
    | some s =>
      match o.handleEmptyInbox env fresh { a with cached := some s } s with
      | (none, a) => (none, a)
      | (some s, a) => o.classifyStartability env a s

/-- One turn. The completions it takes are settled by whether they were saved. -/
def runWorkflow (o : Orchestrator) (env : TurnEnv) (a : Actor B) : Actor B :=
  match o.prepareTurn env a with
  | (none, a) => a
  | (some s, a) =>
    let (folded, held) := a.held.foldTake s.generation
    let (foldedCommitted, a) := o.execute env { a with held := held } s folded
    { a with held := if foldedCommitted then a.held.foldAck folded else a.held.foldNack folded }

end Orchestrator

/-! ## The actor -/

/-- What the actor is given to do. -/
inductive Input where
  | deliver (env : Env) (d : Delivery) (e : HistoryEvent)
  | turn (env : TurnEnv)
  /-- The cache is dropped: the instance is read again by the next call. -/
  | invalidate
  | deactivate

def Actor.deactivate (a : Actor B) : Actor B :=
  { a with cached := none, held := a.held.foldFlush, certVerifyCache := [] }

def Orchestrator.step (o : Orchestrator) (a : Actor B) : Input → Actor B
  | .deliver env d e => (o.deliver env a e d).2
  | .turn env => o.runWorkflow env a
  | .invalidate => a.invalidateCachedState
  | .deactivate => a.deactivate

end Turn

end Dapr.Workflow
