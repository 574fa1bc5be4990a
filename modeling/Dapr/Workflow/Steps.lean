import Dapr.Workflow.State
/-!
# Steps and their resolutions

A workflow schedules steps (activities, timers, child workflows) and each step is resolved
by an event that names the id of the event that scheduled it. The functions here look for
schedulings and resolutions in lists of events.
-/

namespace Dapr.Workflow

/-- What a workflow can wait for. -/
inductive StepKind where
  | task
  | timer
  | childWorkflow
  deriving DecidableEq, Repr

/-- A step of a workflow: its kind and the id of the event that scheduled it. -/
structure Scheduling where
  kind : StepKind
  id : Int
  deriving DecidableEq, Repr

def schedules (e : HistoryEvent) : Option Scheduling :=
  match e.eventType with
  | .taskScheduled _ => some ⟨.task, e.eventId⟩
  | .timerCreated _ => some ⟨.timer, e.eventId⟩
  | .childWorkflowInstanceCreated _ => some ⟨.childWorkflow, e.eventId⟩
  | _ => none

theorem schedules_of_taskScheduled {e : HistoryEvent} {b : TaskScheduledEvent} (h : e.getTaskScheduled = some b) :
    schedules e = some ⟨.task, e.eventId⟩ := by
  unfold HistoryEvent.getTaskScheduled at h
  split at h
  · next heq => simp [schedules, heq]
  · cases h

def resolves (e : HistoryEvent) : Option Scheduling :=
  match e.eventType with
  | .taskCompleted b => some ⟨.task, b.taskScheduledId⟩
  | .taskFailed b => some ⟨.task, b.taskScheduledId⟩
  | .timerFired id => some ⟨.timer, id⟩
  | .childWorkflowInstanceCompleted b => some ⟨.childWorkflow, b.taskScheduledId⟩
  | .childWorkflowInstanceFailed b => some ⟨.childWorkflow, b.taskScheduledId⟩
  | _ => none

def isActivityResult (e : HistoryEvent) : Bool :=
  match e.eventType with
  | .taskCompleted _ => true
  | .taskFailed _ => true
  | _ => false

def isChildResult (e : HistoryEvent) : Bool :=
  match e.eventType with
  | .childWorkflowInstanceCompleted _ => true
  | .childWorkflowInstanceFailed _ => true
  | _ => false

/-! ## Duplicates -/

def isPresent (events : List HistoryEvent) (k : Scheduling) : Bool :=
  events.any fun e => resolves e = some k

def isDuplicateCompletion (e : HistoryEvent) (history inbox : List HistoryEvent) : Bool :=
  match resolves e with
  | none => false
  | some k => isPresent history k || isPresent inbox k

/-- Whether an event was raised before: the same name and the same time of ingestion. -/
def isDuplicateExternalEvent (e : HistoryEvent) (history inbox : List HistoryEvent) : Bool :=
  match e.eventType with
  | .eventRaised name _ =>
    let found := fun (x : HistoryEvent) =>
      match x.eventType with
      | .eventRaised name' _ => name' = name ∧ x.timestamp = e.timestamp
      | _ => false
    history.any (fun x => found x) || inbox.any (fun x => found x)
  | _ => false

/-! ## Activity results -/

/-- The task and the invocation of it that an activity result resolves. -/
def activityResolution (e : HistoryEvent) : Option (Int × String) :=
  match e.eventType with
  | .taskCompleted b => some (b.taskScheduledId, b.taskExecutionId)
  | .taskFailed b => some (b.taskScheduledId, b.taskExecutionId)
  | _ => none

/-- Whether the events hold an id at or beyond the given one. -/
def passedID (events : List HistoryEvent) (id : Int) : Bool :=
  events.any fun e => id ≤ e.eventId

/-- Why an activity result can never be consumed by this history. -/
def activityDrop {B : Type} (s : State B) (resolution : Option (Int × String)) (scheduled : Option TaskScheduledEvent) :
    Option String :=
  match resolution with
  | none => none
  | some (taskID, execID) =>
    match scheduled with
    | some sched =>
      if execID ≠ "" ∧ sched.taskExecutionId ≠ "" ∧ sched.taskExecutionId ≠ execID then
        some s!"it resolves a superseded scheduling of task {taskID}"
      else if s.isCompleted then some "the workflow has completed"
      else none
    | none =>
      if passedID s.history taskID then some s!"this generation passed id {taskID} without scheduling a task"
      else if s.isCompleted then some "the workflow has completed"
      else none

/-- The child this history created for the step that a child result resolves. -/
def childCreatedFor (history : List HistoryEvent) (e : HistoryEvent) : Option ChildWorkflowInstanceCreatedEvent :=
  let find (taskID : Int) := history.findSome? fun h =>
    if h.eventId = taskID then h.getChildWorkflowInstanceCreated else none
  match e.eventType with
  | .childWorkflowInstanceCompleted b => find b.taskScheduledId
  | .childWorkflowInstanceFailed b => find b.taskScheduledId
  | _ => none

/-! ## Resolutions without a scheduling -/

def isScheduled (events : List HistoryEvent) (k : Scheduling) : Bool :=
  events.any fun e => schedules e = some k

/-- Whether an event resolves nothing or a step that the events schedule. -/
def isMatched (events : List HistoryEvent) (e : HistoryEvent) : Bool :=
  match resolves e with
  | none => true
  | some k => isScheduled events k

/-- Take the resolutions that resolve nothing out of the new events of a turn. The second
list holds those to be kept in the inbox for a later turn; `keep` is false once the workflow
has completed or continued as new. -/
def stripUnmatchedResolutions (history newEvents : List HistoryEvent) (keep : Bool) :
    List HistoryEvent × List HistoryEvent :=
  loop newEvents
where
  loop : List HistoryEvent → List HistoryEvent × List HistoryEvent
    | [] => ([], [])
    | e :: es =>
      let (filtered, early) := loop es
      if isMatched (history ++ newEvents) e then (e :: filtered, early)
      -- a timer fires again when the workflow creates it
      else if e.isTimerFired then (filtered, early)
      else match resolves e with
        | none => (filtered, early)
        | some k =>
          if keep && !passedID history k.id && !passedID newEvents k.id then (filtered, e :: early)
          else (filtered, early)

section Strip
variable {history newEvents filtered early : List HistoryEvent} {keep : Bool}

theorem isTimerFired_iff (e : HistoryEvent) : e.isTimerFired = true ↔ ∃ id, resolves e = some ⟨.timer, id⟩ := by
  unfold HistoryEvent.isTimerFired resolves
  cases e.eventType <;> simp

/-- The new event resolves a step, not a timer, that is neither scheduled nor passed. -/
def isEarly (history newEvents : List HistoryEvent) (e : HistoryEvent) : Bool :=
  match resolves e with
  | none => false
  | some k => !isScheduled (history ++ newEvents) k && k.kind != .timer && !passedID (history ++ newEvents) k.id

theorem isMatched_of_resolves {events : List HistoryEvent} {e : HistoryEvent} {k : Scheduling}
    (h : resolves e = some k) : isMatched events e = isScheduled events k := by
  simp [isMatched, h]

theorem passedID_append (xs ys : List HistoryEvent) (id : Int) :
    passedID (xs ++ ys) id = (passedID xs id || passedID ys id) := List.any_append

theorem isTimerFired_of_resolves {e : HistoryEvent} {k : Scheduling} (h : resolves e = some k) :
    e.isTimerFired = (k.kind == .timer) := by
  rw [Bool.eq_iff_iff, isTimerFired_iff, h, beq_iff_eq]
  constructor
  · rintro ⟨id, hk⟩
    rw [Option.some.inj hk]
  · rintro hk
    exact ⟨k.id, by rw [← hk]⟩

/-- An event goes on to history, stays for a later turn or is dropped. -/
theorem strip_loop_eq (es : List HistoryEvent) :
    stripUnmatchedResolutions.loop history newEvents keep es =
      (es.filter (isMatched (history ++ newEvents)), es.filter fun e => keep && isEarly history newEvents e) := by
  induction es with
  | nil => rfl
  | cons e es ih =>
    simp only [stripUnmatchedResolutions.loop, ih, List.filter_cons]
    cases hr : resolves e with
    | none =>
      have hm : isMatched (history ++ newEvents) e = true := by simp [isMatched, hr]
      simp [hm, isEarly, hr]
    | some k =>
      have hearly : isEarly history newEvents e = (!isScheduled (history ++ newEvents) k && !e.isTimerFired &&
          (!passedID history k.id && !passedID newEvents k.id)) := by
        rw [isTimerFired_of_resolves hr]
        simp [isEarly, hr, passedID_append, bne]
      rw [isMatched_of_resolves hr, hearly]
      cases isScheduled (history ++ newEvents) k with
      | true => simp
      | false =>
        cases e.isTimerFired with
        | true => simp
        | false => simp [apply_ite]

variable (h : stripUnmatchedResolutions history newEvents keep = (filtered, early))
include h

/-- What goes on to history are the new events that are matched. -/
theorem filtered_eq : filtered = newEvents.filter (isMatched (history ++ newEvents)) := by
  rw [stripUnmatchedResolutions, strip_loop_eq] at h
  exact (congrArg Prod.fst h).symm

theorem early_eq : early = newEvents.filter fun e => keep && isEarly history newEvents e := by
  rw [stripUnmatchedResolutions, strip_loop_eq] at h
  exact (congrArg Prod.snd h).symm

/-- What stays in the inbox is unmatched, and not a timer; none does once the workflow has
completed or continued as new. -/
theorem mem_early {e : HistoryEvent} (he : e ∈ early) :
    e ∈ newEvents ∧ isMatched (history ++ newEvents) e = false ∧ e.isTimerFired = false ∧ keep = true := by
  rw [early_eq h, List.mem_filter, Bool.and_eq_true] at he
  obtain ⟨hnew, hkeep, hearly⟩ := he
  unfold isEarly at hearly
  split at hearly
  · cases hearly
  · rename_i k hk
    rw [isMatched_of_resolves hk, isTimerFired_of_resolves hk]
    simp_all

theorem early_sublist : early.Sublist newEvents := by
  rw [early_eq h]
  exact List.filter_sublist

end Strip

/-- The events with the resolutions of steps that history has not scheduled moved to the end. -/
def unscheduledLast (history events : List HistoryEvent) : List HistoryEvent :=
  match events.findIdx? fun e => !isMatched history e with
  | none => events
  | some i =>
    let rest := loop (events.drop i)
    events.take i ++ rest.1 ++ rest.2
where
  loop : List HistoryEvent → List HistoryEvent × List HistoryEvent
    | [] => ([], [])
    | e :: es =>
      let (out, last) := loop es
      if isMatched history e then (e :: out, last) else (out, e :: last)

/-- The scheduling among the new events of a turn that history already holds, if any. -/
def staleTurnDuplicate (history newEvents : List HistoryEvent) : Option Scheduling :=
  history.findSome? fun h => (schedules h).filter fun k => isScheduled newEvents k

/-! ## The inbox of a loaded state -/

/-- Whether an inbox event may stand next to this history: a result needs its scheduling,
and only some kinds of other events have a place in an inbox. -/
def isValidInboxEvent (history : List HistoryEvent) (e : HistoryEvent) : Bool :=
  match e.eventType with
  | .taskCompleted b => isScheduled history ⟨.task, b.taskScheduledId⟩
  | .taskFailed b => isScheduled history ⟨.task, b.taskScheduledId⟩
  | .childWorkflowInstanceCompleted b => isScheduled history ⟨.childWorkflow, b.taskScheduledId⟩
  | .childWorkflowInstanceFailed b => isScheduled history ⟨.childWorkflow, b.taskScheduledId⟩
  | .eventRaised _ _ => true
  | .timerFired _ => true
  | .executionStarted _ => true
  | .executionTerminated _ => true
  | .executionResumed => true
  | .executionSuspended => true
  | _ => false

def filterValidInboxEvents (history inbox : List HistoryEvent) : List HistoryEvent :=
  inbox.filter (isValidInboxEvent history)

/-- Inbox events, no history and no pending start: the committed start was lost. -/
def isUnstartableState (history inbox : List HistoryEvent) : Bool :=
  inbox ≠ [] ∧ history = [] ∧ inbox.all fun e => e.getExecutionStarted.isNone

end Dapr.Workflow
