import Dapr.Workflow.Turn
/-!
# Creating an instance

A create request for an instance that exists is a retry of the create that made it, a replay
of the parent's create, a new create of a completed instance, or a conflict.
`judgeExisting` tells which. The rest of the module follows a create through the cached state
and the store, to each of its exits.

Of the store a record is kept: the lists of the instance and its optional rows. Certificates
and signatures have no part in a create.
-/

namespace Dapr.Workflow

structure CreateWorkflowInstanceRequest where
  startEvent : HistoryEvent
  propagatedHistory : Option PropagatedHistory
  enforceUniqueInstanceId : Bool

inductive StatusCode where
  | unknown
  | alreadyExists
  | aborted
  | unavailable
  deriving DecidableEq, Repr

structure CreateError where
  code : StatusCode
  message : String
  deriving DecidableEq, Repr

/-- What comes of the check that all children of an instance are done. -/
inductive ChildrenCheck where
  | terminal
  | notCompleted (err : String)
  | unverified (err : String)
  deriving DecidableEq, Repr

/-- How a load of the stored rows is judged: it cannot be made, or the rows were tampered with
(a rejected signature chain, an inbox that does not match the signed history, a rejected
propagated history), or neither. -/
inductive LoadAnswer where
  | failed (err : String)
  | tampered (cause : String)
  | intact
  deriving DecidableEq, Repr

inductive Refresh where
  | failed
  | noResponse
  /-- No row; and what the second read finds, an error, a row or again none. -/
  | empty (again : Option Bool)
  | row (etag : Option ETag)
  deriving DecidableEq, Repr

/-- How the other parties of a creation act. -/
structure CreateEnv where
  now : Int
  load : LoadAnswer
  /-- The token that a load reads. -/
  etag : Option ETag
  tombstone : SaveOutcome
  /-- The token after a tombstone, if it can be read. -/
  tombstoneTag : Option (Option ETag)
  /-- Whether the reminder of a pending start is missing or cannot be looked up. -/
  startReminderNeedsReassert : HistoryEvent → Bool
  activityResultAwaited : Bool
  children : ChildrenCheck
  /-- The certificates, with their digests, of a propagated history that verifies. -/
  verifyPropagatedHistory : PropagatedHistory → Option (List (Blob × Blob))
  signs : Bool
  save : SaveOutcome
  refresh : Refresh
  startReminder : Bool
  parentNotifyReminder : Bool

/-! ## Whose create it is -/

/-- Two parent references that may be of one execution: an absent execution id is of any. -/
def sameParentExecution (existing incoming : ParentInstanceInfo) : Bool :=
  existing.executionId.isNone || incoming.executionId.isNone || existing.executionId = incoming.executionId

/-- Whether a create describes the start that was saved, whatever its timestamp and its own
execution id. -/
def isSameLogicalStart (saved incoming : ExecutionStartedEvent) : Bool :=
  saved.name = incoming.name && getValue saved.version = getValue incoming.version &&
    getValue saved.input = getValue incoming.input &&
    saved.scheduledStartTimestamp = incoming.scheduledStartTimestamp &&
    match saved.parentInstance, incoming.parentInstance with
    | none, none => true
    | some p, some q =>
      p.instanceId = q.instanceId && p.taskScheduledId = q.taskScheduledId && sameParentExecution p q
    | _, _ => false

section Create
variable {B : Type}

namespace State

def pendingStart (s : State B) : Option HistoryEvent :=
  if s.history ≠ [] then none else s.inbox.find? fun e => e.getExecutionStarted.isSome

def parentInstance (s : State B) : Option ParentInstanceInfo :=
  s.getExecutionStartedEvent.bind fun start => start.parentInstance

/-- Whether the parent creates again what it created; and whether another execution of it
does. -/
def isSameParentCreation (s : State B) (start : ExecutionStartedEvent) : Bool × Bool :=
  match start.parentInstance, s.parentInstance with
  | some newParent, some existingParent =>
    if existingParent.instanceId ≠ newParent.instanceId ∨
        existingParent.taskScheduledId ≠ newParent.taskScheduledId then (false, false)
    else if !sameParentExecution existingParent newParent then (false, true)
    else (true, false)
  | _, _ => (false, false)

def isSameExecutionRetry (s : State B) (start : ExecutionStartedEvent) : Bool :=
  s.executionID ≠ "" && s.executionID = getValue start.executionId

def creationInputFor (s : State B) (parent : Option ParentInstanceInfo) : Bool :=
  s.creationInput.isSome && s.creationInputParent = creationParentOf parent

end State

/-- What is to be done about a create of an instance that exists. -/
inductive Existing where
  | ignore
  | redrive (pending : HistoryEvent)
  | refuse (err : CreateError)
  | renotify
  | recreate
  deriving DecidableEq, Repr

namespace Orchestrator

/-- Whether another execution of the parent that is owed a completion creates the child. -/
def isLaterParentExecution (o : Orchestrator) (s : State B) (start : ExecutionStartedEvent) : Bool :=
  let appOf := fun (p : ParentInstanceInfo) => if p.appID = "" then o.appID else p.appID
  match start.parentInstance, s.parentInstance with
  | some incoming, some owed =>
    incoming.instanceId = owed.instanceId && appOf incoming = appOf owed && !sameParentExecution owed incoming
  | _, _ => false

def activeConflict (o : Orchestrator) (start : ExecutionStartedEvent) (parentExecMismatch : Bool) : CreateError :=
  let actorID := o.actorID
  let parentID := (start.parentInstance.map fun p => p.instanceId).getD ""
  if parentExecMismatch then
    ⟨.alreadyExists, s!"an active workflow with ID '{actorID}' already exists: it was created by a previous execution of parent workflow '{parentID}' (e.g. before a ContinueAsNew); child workflow instance IDs must be unique across parent executions"⟩
  else ⟨.alreadyExists, s!"an active workflow with ID '{actorID}' already exists"⟩

def judgeActive (o : Orchestrator) (env : CreateEnv) (s : State B) (start : ExecutionStartedEvent) : Existing :=
  let redrive := (s.pendingStart.filter env.startReminderNeedsReassert).elim .ignore .redrive
  let (sameParent, parentExecMismatch) := s.isSameParentCreation start
  if sameParent then redrive
  else if s.isSameExecutionRetry start then redrive
  else match s.pendingStart with
    | none => .refuse (o.activeConflict start parentExecMismatch)
    | some pending =>
      let sameStart := pending.getExecutionStarted.any fun saved => isSameLogicalStart saved start
      if sameStart && env.startReminderNeedsReassert pending then .redrive pending
      else .refuse (o.activeConflict start parentExecMismatch)

def judgeCompleted (o : Orchestrator) (env : CreateEnv) (s : State B) (start : ExecutionStartedEvent)
    (enforceUnique : Bool) : Existing :=
  let actorID := o.actorID
  if start.parentInstance.isNone && s.isSameExecutionRetry start then .ignore
  else if enforceUnique then
    .refuse ⟨.alreadyExists,
      s!"a workflow with ID '{actorID}' already exists and the create enforces instance ID uniqueness"⟩
  else if env.activityResultAwaited then
    .refuse ⟨.unknown, s!"a terminated workflow with ID '{actorID}' is already awaiting an activity result"⟩
  else if (s.isSameParentCreation start).1 then if s.parentNotifyPending then .ignore else .renotify
  else if s.parentNotifyPending && !o.isLaterParentExecution s start then
    .refuse ⟨.aborted,
      s!"a workflow with ID '{actorID}' has completed but its parent has not acknowledged the completion yet"⟩
  else match env.children with
    | .notCompleted err => .refuse ⟨.alreadyExists, s!"cannot recreate workflow with ID '{actorID}': {err}"⟩
    | .unverified err => .refuse ⟨.unavailable, s!"cannot recreate workflow with ID '{actorID}': {err}"⟩
    | .terminal => .recreate

def judgeExisting (o : Orchestrator) (env : CreateEnv) (s : State B) (start : ExecutionStartedEvent)
    (enforceUnique : Bool) : Existing :=
  if !o.runtime.isCompleted s.history then o.judgeActive env s start else o.judgeCompleted env s start enforceUnique

/-! ## Propagated history -/

/-- Add certificates to the table of a state, up to the first with a digest of a wrong size. -/
def absorbCerts (s : State B) : List (Blob × Blob) → Bool × State B
  | [] => (true, s)
  | (digest, certDER) :: certs =>
    match s.addExternalCert digest certDER with
    | none => (false, s)
    | some (_, s) => absorbCerts s certs

/-- Verify a propagated history and take over its certificates; and whether that worked. -/
def verifyAndAbsorbPropagatedHistory (o : Orchestrator) (env : CreateEnv) (ph : PropagatedHistory) (s : State B) :
    Bool × State B :=
  if !o.signer then (true, s)
  else match env.verifyPropagatedHistory ph with
    | none => (false, s)
    | some certs => absorbCerts s certs

def receiveHistory (o : Orchestrator) (env : CreateEnv) (ph : Option PropagatedHistory) (s : State B) :
    Bool × State B :=
  match ph with
  | none => (true, s)
  | some ph =>
    match o.verifyAndAbsorbPropagatedHistory env ph s with
    | (false, s) => (false, s)
    | (true, s) => (true, s.setIncomingHistory (some ph))

end Orchestrator

/-! ## The store -/

/-- What the store holds of an instance. -/
structure Durable extends Saved where
  customStatus : Option String
  propagatedHistory : Option PropagatedHistory
  parentNotify : Bool
  creationInput : Option CreationInputRow
  deriving DecidableEq

def State.write (s : State B) (old : Option Durable) : Durable where
  toSaved := s.saved
  customStatus :=
    if s.writesCustomStatus then some (getValue s.customStatus) else old.bind fun d => d.customStatus
  propagatedHistory :=
    if s.incomingHistoryChanged then s.incomingHistory else old.bind fun d => d.propagatedHistory
  parentNotify :=
    if s.parentNotifyChanged && (s.parentNotifyPending || s.parentNotifyPersisted) then s.parentNotifyPending
    else old.any fun d => d.parentNotify
  creationInput :=
    if s.creationInputChanged && (s.creationInput.isSome || s.creationInputPersisted) then
      s.creationInput.map fun v => ⟨s.creationInputParent, v⟩
    else old.bind fun d => d.creationInput

/-- What a host has cached, and what is saved. -/
structure Instance (B : Type) where
  cached : Option (State B)
  durable : Option Durable

namespace Instance

def invalidateCachedState (a : Instance B) : Instance B := { a with cached := none }

end Instance

namespace Orchestrator

def loaded (o : Orchestrator) (d : Durable) (etag : Option ETag) : State B :=
  { newState o.opts with
    inbox := d.inbox
    history := d.history
    generation := d.generation
    customStatus := d.customStatus
    customStatusPersisted := d.customStatus.isSome
    incomingHistory := d.propagatedHistory
    propagatedHistoryPersisted := d.propagatedHistory.isSome
    parentNotifyPending := d.parentNotify
    parentNotifyPersisted := d.parentNotify
    creationInput := d.creationInput.map fun row => row.input
    creationInputParent := (d.creationInput.map fun row => row.parent).getD ⟨"", ""⟩
    creationInputPersisted := d.creationInput.isSome
    metadataETag := etag
    metadataETagSeen := etag.isSome }

end Orchestrator

/-- Rows that a purge of an old binary left behind are not this instance's. -/
def State.dropStaleRows (s : State B) : State B :=
  let parent := s.parentInstance
  let s := if s.parentNotifyPending && parent.isNone then s.setParentNotifyPending false else s
  if s.creationInput.isSome && !s.creationInputFor parent then s.clearCreationInput else s

namespace Orchestrator

def tombstone (env : CreateEnv) (a : Instance B) (prior : State B) (cause : String) :
    Except CreateError (State B) × Instance B :=
  if prior.hasTamperMarker then (.ok prior, { a with cached := some prior })
  else
    let s := prior.addToHistory (tamperMarker cause env.now)
    let written := { a with durable := some (s.write a.durable) }
    let err : CreateError := ⟨.unknown, "failed to append tamper marker"⟩
    match env.tombstone with
    | .failed => (.error err, a)
    | .lost => (.error err, written)
    | .committed =>
      let s := s.resetChangeTracking
      let s := match env.tombstoneTag with
        | none => { s with metadataETag := none, metadataETagSeen := false }
        | some etag => s.setMetadataETag etag
      (.ok s, { written with cached := some s })

def loadInstance (o : Orchestrator) (env : CreateEnv) (a : Instance B) :
    Except CreateError (Option (State B)) × Instance B :=
  match a.cached with
  | some s => (.ok (some s), a)
  | none =>
    match env.load, a.durable with
    | .failed err, _ => (.error ⟨.unknown, err⟩, a)
    | _, none => (.ok none, a)
    | .tampered cause, some d =>
      match tombstone env a (o.loaded d env.etag) cause with
      | (.error err, a) => (.error err, a)
      | (.ok s, a) => (.ok (some s), a)
    | .intact, some d =>
      let s := (o.loaded d env.etag).dropStaleRows
      (.ok (some s), { a with cached := some s })

/-- Save a state. A failure drops the cached one, and so does a success after which the
version of the metadata row is not known for sure. -/
def signAndSaveState (o : Orchestrator) (env : CreateEnv) (a : Instance B) (s : State B) :
    Option CreateError × Instance B :=
  if o.signer && s.historyAddedCount ≠ 0 && !env.signs then
    (some ⟨.unknown, "failed to sign new history events"⟩, a.invalidateCachedState)
  else if s.metadataETag.isNone && s.metadataETagSeen then
    (some ⟨.unknown, "workflow metadata etag lost after load; refusing blind upsert"⟩, a.invalidateCachedState)
  else
    let written := { a with durable := some (s.write a.durable) }
    let s := s.resetChangeTracking
    let keep := fun etag => { written with cached := some (s.setMetadataETag etag) }
    match env.save with
    | .failed => (some ⟨.unknown, "failed to save the state"⟩, a.invalidateCachedState)
    | .lost => (some ⟨.unknown, "failed to save the state"⟩, written.invalidateCachedState)
    | .committed =>
      match env.refresh with
      | .failed => (none, written.invalidateCachedState)
      | .noResponse => (none, keep none)
      | .row etag => (none, keep etag)
      | .empty again =>
        if !s.metadataETagSeen then (none, keep none)
        else match again with
          | none => (some ⟨.unknown, "failed to confirm the metadata row after save"⟩, written.invalidateCachedState)
          | some true => (none, written.invalidateCachedState)
          -- another host purged the instance
          | some false => (some ⟨.unknown, "state purged after save"⟩, ⟨none, none⟩)

def assertReminder (armed : Bool) : Option CreateError :=
  if armed then none else some ⟨.unknown, "failed to create the reminder"⟩

def scheduleWorkflowStart (o : Orchestrator) (env : CreateEnv) (a : Instance B) (startEvent : HistoryEvent)
    (start : ExecutionStartedEvent) (s : State B) : Option CreateError × Instance B :=
  match o.signAndSaveState env a ((s.keepCreationInputOf start).addToInbox startEvent) with
  | (some err, a) => (some err, a)
  | (none, a) => (assertReminder env.startReminder, a)

def propagationFailure (o : Orchestrator) : CreateError :=
  let actorID := o.actorID
  ⟨.unknown, s!"workflow actor '{actorID}': propagated history verification failed"⟩

/-- The cached state is changed in place, before the save. -/
def createIfCompleted (o : Orchestrator) (env : CreateEnv) (a : Instance B) (s : State B)
    (req : CreateWorkflowInstanceRequest) (start : ExecutionStartedEvent) : Option CreateError × Instance B :=
  match o.judgeExisting env s start req.enforceUniqueInstanceId with
  | .ignore => (none, a)
  | .redrive _ => (assertReminder env.startReminder, a)
  | .refuse err => (some err, a)
  | .renotify =>
    match o.signAndSaveState env a (s.setParentNotifyPending true) with
    | (some err, a) => (some err, a)
    | (none, a) => (assertReminder env.parentNotifyReminder, a)
  | .recreate =>
    match o.receiveHistory env req.propagatedHistory s.reset with
    | (false, s) => (some o.propagationFailure, { a with cached := some s })
    | (true, s) => o.scheduleWorkflowStart env a req.startEvent start s

def createWorkflowInstance (o : Orchestrator) (env : CreateEnv) (a : Instance B)
    (req : CreateWorkflowInstanceRequest) : Option CreateError × Instance B :=
  match req.startEvent.getExecutionStarted with
  | none => (some ⟨.unknown, "invalid execution start event"⟩, a)
  | some start =>
    match o.loadInstance env a with
    | (.error err, a) => (some err, a)
    | (.ok (some s), a) => o.createIfCompleted env a s req start
    | (.ok none, a) =>
      match o.receiveHistory env req.propagatedHistory (newState o.opts) with
      | (false, _) => (some o.propagationFailure, a)
      | (true, s) => o.scheduleWorkflowStart env a req.startEvent start s

end Orchestrator

end Create

end Dapr.Workflow
