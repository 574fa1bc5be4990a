import Mathlib.Data.List.Basic
/-!
# Workflow history events

The messages a workflow instance's inbox and history are made of. Only the fields that the
modelled code reads are kept.
-/

namespace Dapr.Workflow

/-- Raw bytes carried inside a message: certificates, digests, signatures. -/
abbrev Blob := List UInt8

inductive OrchestrationStatus where
  | running
  | completed
  | continuedAsNew
  | failed
  | canceled
  | terminated
  | pending
  | suspended
  | stalled
  deriving DecidableEq, Repr

structure TaskFailureDetails where
  errorType : String
  errorMessage : String
  deriving DecidableEq, Repr

/-- The apps an event travels between; the target is absent for a local step. -/
structure TaskRouter where
  sourceAppID : String
  targetAppID : Option String
  deriving DecidableEq, Repr

/-- A signed statement that a step ended as its completion event says. -/
structure Attestation where
  payload : Blob
  signature : Blob
  deriving DecidableEq, Repr

structure ParentInstanceInfo where
  instanceId : String
  executionId : Option String
  taskScheduledId : Int
  appID : String
  deriving DecidableEq, Repr

structure ExecutionStartedEvent where
  name : String
  input : Option String
  instanceId : String
  executionId : Option String
  parentInstance : Option ParentInstanceInfo
  version : Option String
  scheduledStartTimestamp : Option Int
  deriving DecidableEq, Repr

structure ExecutionCompletedEvent where
  workflowStatus : OrchestrationStatus
  failureDetails : Option TaskFailureDetails
  deriving DecidableEq, Repr

/-- The instance a step is a rerun of. -/
structure RerunParentInstanceInfo where
  instanceID : String
  deriving DecidableEq, Repr

structure TaskScheduledEvent where
  name : String
  input : Option String
  taskExecutionId : String
  rerunParentInstanceInfo : Option RerunParentInstanceInfo
  deriving DecidableEq, Repr

structure TaskCompletedEvent where
  taskScheduledId : Int
  taskExecutionId : String
  result : Option String
  attestation : Option Attestation
  signerCertificate : Blob
  deriving DecidableEq, Repr

structure TaskFailedEvent where
  taskScheduledId : Int
  taskExecutionId : String
  failureDetails : Option TaskFailureDetails
  attestation : Option Attestation
  signerCertificate : Blob
  deriving DecidableEq, Repr

structure ChildWorkflowInstanceCreatedEvent where
  instanceId : String
  name : String
  input : Option String
  rerunParentInstanceInfo : Option RerunParentInstanceInfo
  deriving DecidableEq, Repr

structure ChildWorkflowInstanceCompletedEvent where
  taskScheduledId : Int
  result : Option String
  attestation : Option Attestation
  signerCertificate : Blob
  deriving DecidableEq, Repr

structure ChildWorkflowInstanceFailedEvent where
  taskScheduledId : Int
  failureDetails : Option TaskFailureDetails
  attestation : Option Attestation
  signerCertificate : Blob
  deriving DecidableEq, Repr

inductive TimerOrigin where
  /-- The timeout of a wait for an external event. -/
  | externalEvent (name : String)
  | other
  deriving DecidableEq, Repr

structure TimerCreatedEvent where
  name : Option String
  origin : Option TimerOrigin
  rerunParentInstanceInfo : Option RerunParentInstanceInfo
  deriving DecidableEq, Repr

structure WorkflowVersion where
  patches : List String
  name : Option String
  deriving DecidableEq, Repr

/-- The body of a history event. `unset` is a message without a body; `other` stands for the
bodies no modelled function looks into, told apart by their field number. -/
inductive EventType where
  | unset
  | executionStarted (e : ExecutionStartedEvent)
  | executionCompleted (e : ExecutionCompletedEvent)
  | executionTerminated (recurse : Bool)
  | executionSuspended
  | executionResumed
  | executionStalled (description : String)
  | taskScheduled (e : TaskScheduledEvent)
  | taskCompleted (e : TaskCompletedEvent)
  | taskFailed (e : TaskFailedEvent)
  | childWorkflowInstanceCreated (e : ChildWorkflowInstanceCreatedEvent)
  | childWorkflowInstanceCompleted (e : ChildWorkflowInstanceCompletedEvent)
  | childWorkflowInstanceFailed (e : ChildWorkflowInstanceFailedEvent)
  | detachedWorkflowInstanceCreated
  | timerCreated (e : TimerCreatedEvent)
  | timerFired (timerId : Int)
  | workflowStarted (version : Option WorkflowVersion)
  | eventRaised (name : String) (input : Option String)
  | other (field : Nat)
  deriving DecidableEq, Repr

/-- An event of an inbox or a history. -/
structure HistoryEvent where
  eventId : Int
  timestamp : Option Int
  router : Option TaskRouter
  eventType : EventType
  deriving DecidableEq, Repr

namespace HistoryEvent

def getExecutionStarted (e : HistoryEvent) : Option ExecutionStartedEvent :=
  match e.eventType with
  | .executionStarted b => some b
  | _ => none

def getExecutionCompleted (e : HistoryEvent) : Option ExecutionCompletedEvent :=
  match e.eventType with
  | .executionCompleted b => some b
  | _ => none

def getTaskScheduled (e : HistoryEvent) : Option TaskScheduledEvent :=
  match e.eventType with
  | .taskScheduled b => some b
  | _ => none

def getChildWorkflowInstanceCreated (e : HistoryEvent) : Option ChildWorkflowInstanceCreatedEvent :=
  match e.eventType with
  | .childWorkflowInstanceCreated b => some b
  | _ => none

def isTimerFired (e : HistoryEvent) : Bool :=
  match e.eventType with
  | .timerFired _ => true
  | _ => false

variable {e : HistoryEvent}

theorem eventType_of_executionStarted (h : e.getExecutionStarted.isSome = true) :
    ∃ b, e.eventType = .executionStarted b := by
  unfold getExecutionStarted at h
  split at h
  · next b heq => exact ⟨b, heq⟩
  · cases h

theorem eventType_of_executionCompleted (h : e.getExecutionCompleted.isSome = true) :
    ∃ b, e.eventType = .executionCompleted b := by
  unfold getExecutionCompleted at h
  split at h
  · next b heq => exact ⟨b, heq⟩
  · cases h

theorem isTimerFired_of_start (h : e.getExecutionStarted.isSome = true) : e.isTimerFired = false := by
  obtain ⟨b, heq⟩ := eventType_of_executionStarted h
  simp [isTimerFired, heq]

end HistoryEvent

end Dapr.Workflow
