import Dapr.Workflow.Attestation
import Dapr.Workflow.Fold
import Dapr.Workflow.Instance
/-!
# Admission of inbound events

An actor keeps the state of one instance between calls. `admitEvent` decides what becomes of
an event sent to it: dropped, refused, recognised as a duplicate, written to the inbox, or
held for the next turn.

The store is seen through what the actor saved: `Actor.saves` lists every record that was
written, the latest first, and a load returns the latest.
-/

namespace Dapr.Workflow

/-- What the engine's runtime state says of a history. -/
structure Runtime where
  isCompleted : List HistoryEvent → Bool
  isStalled : List HistoryEvent → Bool

/-- The workflow actor, as it is configured. -/
structure Orchestrator where
  appID : String
  nspace : String
  actorID : String
  signer : Bool
  runtime : Runtime
  verification : HistoryVerification
  /-- The identifier that names a text. -/
  uuid : String → String

/-- What one save leaves in the store of the events of an instance. -/
structure Saved where
  inbox : List HistoryEvent
  history : List HistoryEvent
  generation : Nat
  deriving DecidableEq, Repr

/-- What the actor has, and all its saves, the last one first. -/
structure Actor (B : Type) where
  cached : Option (State B)
  held : Held
  certVerifyCache : CertVerifyCache
  saves : List Saved
  deriving DecidableEq

/-- What comes of a transaction. -/
inductive SaveOutcome where
  | committed
  | failed
  /-- The store applied the transaction and the answer was an error. -/
  | lost
  deriving DecidableEq, Repr

/-- How the store answers when the actor asks whether its cache is current. -/
inductive Confirmation where
  | current
  | stale
  | gone
  | unreadable
  deriving DecidableEq, Repr

/-- How the other parties of a delivery act. -/
structure Env where
  /-- What the access policies allow: the caller, its event, and the workflow's name. -/
  policies : Option (String → HistoryEvent → String → Bool)
  now : Int
  loads : Bool
  reloads : Bool
  confirm : Confirmation
  save : SaveOutcome
  tombstone : SaveOutcome
  /-- Whether the wake-up can be armed. -/
  drives : Bool

inductive OrchError where
  | instanceNotFound
  | stalled
  | schedulingNotDurable (context : String)
  | recoverable (message : String)
  | permissionDenied
  deriving DecidableEq, Repr

/-! ## The store -/

section Store
variable {B : Type}

def State.saved (s : State B) : Saved := ⟨s.persistableInbox, s.history, s.generation⟩

/-- What is taken for saved is what the rows hold after the save request, as long as the change counters know of every
event in the inbox. If they do not, the rows still declare as much, but those of the inbox may be old. -/
theorem saved_of_save {W : Wire B} {y y' : Sys B} {raw : List B} (h : Tracked W y)
    (hraw : SignedBytes W (y.state.setMarshaledNewHistory raw)) (hs : y.save W raw = .ok y') :
    ∃ c : Content, ⟨c.inbox, c.history, c.generation⟩ = y.state.saved ∧ Declared W y'.rows c ∧
      (y.uncounted = false → Stored W y'.rows c) := by
  refine ⟨y.state.content, rfl, ?_, fun hu => h.stored hu hraw hs⟩
  obtain ⟨req, hreq, rfl⟩ := Sys.save_ok hs
  exact (h.synced.setMarshaled raw).declared hraw hreq

namespace Actor

def durable (a : Actor B) : Option Saved := a.saves.head?

/-- The token of the metadata row: each accepted write changes it. -/
def etag (a : Actor B) : ETag := a.saves.length

def invalidateCachedState (a : Actor B) : Actor B := { a with cached := none }

/-- Write a state. The store refuses it when the metadata row has changed since the state was
loaded or last saved. -/
def save (a : Actor B) (s : State B) (outcome : SaveOutcome) : Bool × Actor B :=
  if s.metadataETag ≠ some a.etag then (false, a.invalidateCachedState)
  else
    let written := { a with saves := s.saved :: a.saves }
    match outcome with
    | .committed => (true, { written with cached := some (s.resetChangeTracking.setMetadataETag (some written.etag)) })
    | .failed => (false, a.invalidateCachedState)
    | .lost => (false, written.invalidateCachedState)

end Actor

namespace Orchestrator

def opts (o : Orchestrator) : Options := ⟨o.appID, o.nspace, o.signer⟩

/-- The state a load makes of a saved record. -/
def stateOf (o : Orchestrator) (d : Saved) (etag : ETag) : State B :=
  { newState o.opts with
    inbox := d.inbox
    history := d.history
    generation := d.generation
    metadataETag := some etag
    metadataETagSeen := true }

/-- The terminal event of an instance whose stored state was tampered with. -/
def tamperMarker (cause : String) (now : Int) : HistoryEvent where
  eventId := -1
  timestamp := some now
  router := none
  eventType := .executionCompleted ⟨.failed, some ⟨errorTypeHistoryTampered, cause⟩⟩

/-- Fail the instance for good. A failed write leaves the cache as it is. -/
def tombstoneTamperedState (env : Env) (a : Actor B) (prior : State B) (cause : String) :
    Except OrchError (State B) × Actor B :=
  if prior.hasTamperMarker then (.ok prior, { a with cached := some prior })
  else
    let s := prior.addToHistory (tamperMarker cause env.now)
    let written := { a with saves := s.saved :: a.saves }
    if s.metadataETag ≠ some a.etag then (.error (.recoverable "etag mismatch"), a)
    else match env.tombstone with
      | .committed =>
        let s := s.resetChangeTracking.setMetadataETag (some written.etag)
        (.ok s, { written with cached := some s })
      | .failed => (.error (.recoverable "failed to save the tombstone"), a)
      | .lost => (.error (.recoverable "failed to save the tombstone"), written)

/-- Whether a loaded inbox can only be the work of someone who tampered with the store. -/
def condemns (o : Orchestrator) (s : State B) : Bool :=
  o.signer && !s.inbox.isEmpty && !s.isCompleted && !isUnstartableState s.history s.inbox &&
    (filterValidInboxEvents s.history s.inbox).length ≠ s.inbox.length

def loadInternalState (o : Orchestrator) (env : Env) (a : Actor B) : Except OrchError (Option (State B)) × Actor B :=
  match a.cached with
  | some s => (.ok (some s), a)
  | none =>
    if !env.loads then (.error (.recoverable "failed to load the state"), a)
    else match a.durable with
      | none => (.ok none, a)
      | some d =>
        let s := o.stateOf d a.etag
        if o.condemns s then
          let actorID := o.actorID
          let n := s.inbox.length - (filterValidInboxEvents s.history s.inbox).length
          match tombstoneTamperedState env a s
              s!"workflow actor '{actorID}': inbox contained {n} events that did not match signed history (state store tampering)" with
          | (.error err, a) => (.error err, a)
          | (.ok s, a) => (.ok (some s), a)
        else (.ok (some s), { a with cached := some s })

end Orchestrator

end Store

/-! ## Classification -/

/-- Who delivers a completion: the child's instance, the execution of the parent it was created
under, and the app the Scheduler verified as the creator of a reminder. Each is empty when
the path does not carry it. -/
structure CompletionSender where
  instanceID : String
  parentExecutionID : String
  appID : String
  deriving DecidableEq, Repr

/-- What is done with an event. -/
inductive Admission where
  | drop (reason : String) (unauthorized : Bool)
  | reject (err : OrchError)
  /-- Recorded already; the entry is that of a held completion. -/
  | duplicate (pending : Option FoldEntry)
  | inbox
  | fold
  deriving DecidableEq, Repr

def isEventRaised (e : HistoryEvent) : Bool :=
  match e.eventType with
  | .eventRaised _ _ => true
  | _ => false

theorem eventType_of_eventRaised {e : HistoryEvent} (h : isEventRaised e = true) :
    ∃ name input, e.eventType = .eventRaised name input := by
  unfold isEventRaised at h
  split at h
  · next name input heq => exact ⟨name, input, heq⟩
  · cases h

def reasonDuplicateOfCompleted : String := "it duplicates an event of the completed workflow"

def State.getExecutionStartedEvent {B : Type} (s : State B) : Option ExecutionStartedEvent :=
  (s.history ++ s.inbox).findSome? HistoryEvent.getExecutionStarted

def State.executionID {B : Type} (s : State B) : String :=
  getValue (s.getExecutionStartedEvent.bind fun start => start.executionId)

def Orchestrator.expectedApp (o : Orchestrator) (scheduledEvent : Option HistoryEvent) : String :=
  let target := getValue ((scheduledEvent.bind HistoryEvent.router).bind TaskRouter.targetAppID)
  if target = "" then o.appID else target

section Classify
variable {B : Type}

/-- The scheduling that an activity result answers, as the event and as a task. -/
def State.scheduledFor (s : State B) (e : HistoryEvent) : Option HistoryEvent :=
  s.findHistoryEventByID (((activityResolution e).map Prod.fst).getD 0)

def State.taskScheduledFor (s : State B) (e : HistoryEvent) : Option TaskScheduledEvent :=
  (s.scheduledFor e).bind HistoryEvent.getTaskScheduled

/-- Why an event is turned away, whatever else the state holds: the instance is gone, completed
or stalled, or the sender is not the one whose completion it awaits. -/
def Orchestrator.turnedAway (o : Orchestrator) (e : HistoryEvent) (s : State B) (sender : CompletionSender) :
    Option Admission :=
  let created := childCreatedFor s.history e
  let app := sender.appID
  let expected := o.expectedApp (s.scheduledFor e)
  if (isActivityResult e || isChildResult e) && s.hasTamperMarker then some (.reject .instanceNotFound)
  else if isChildResult e && o.runtime.isCompleted s.history then some (.drop "the workflow has completed" false)
  else if o.runtime.isStalled s.history && isEventRaised e then some (.reject .stalled)
  else if sender.instanceID ≠ "" ∧ (created.any fun c => c.instanceId ≠ sender.instanceID) then
    let current := (created.map ChildWorkflowInstanceCreatedEvent.instanceId).getD ""
    some (.drop s!"the task's current child is '{current}'" false)
  else if sender.parentExecutionID ≠ "" ∧ s.executionID ≠ "" ∧ s.executionID ≠ sender.parentExecutionID then
    some (.drop "it was created or dispatched under another execution" false)
  -- a result may only come from the app the task was dispatched to, or from this one
  else if app ≠ "" ∧ isActivityResult e ∧ (s.taskScheduledFor e).isSome ∧ app ≠ o.appID ∧ app ≠ expected then
    some (.drop s!"it was sent by app '{app}' but the task was dispatched to '{expected}'" true)
  else none

def Orchestrator.recordedAlready (o : Orchestrator) (e : HistoryEvent) (s : State B) : Option Admission :=
  if isDuplicateCompletion e s.history s.inbox || isDuplicateExternalEvent e s.history s.inbox then
    some (if o.runtime.isCompleted s.history then .drop reasonDuplicateOfCompleted false else .duplicate none)
  else none

/-- Decide how an event is admitted against a loaded state. Only with `canFold` may it be held. -/
def Orchestrator.classifyEvent (o : Orchestrator) (held : Held) (e : HistoryEvent) (s : State B)
    (sender : CompletionSender) (canFold : Bool) : Admission :=
  let scheduled := s.taskScheduledFor e
  let hold := canFold && isActivityResult e && !o.runtime.isStalled s.history && scheduled.isSome
  match o.turnedAway e s sender with
  | some verdict => verdict
  | none =>
    match o.recordedAlready e s with
    | some verdict => verdict
    | none =>
      match activityDrop s (activityResolution e) scheduled with
      | some reason => .drop reason false
      | none =>
        let app := sender.appID
        let taskID := ((activityResolution e).map Prod.fst).getD 0
        -- the creator cannot be checked against a target that is not recorded yet
        if app ≠ "" ∧ isActivityResult e ∧ scheduled.isNone ∧ app ≠ o.appID then
          .reject (.schedulingNotDurable s!"task {taskID} from app '{app}'")
        else if !hold then .inbox
        else match held.foldPendingEntry e with
          | some pending => .duplicate (some pending)
          | none => .fold

end Classify

/-! ## Attestation at admission -/

def errorTypeAccessPolicyDenied : String := "WorkflowAccessPolicyDenied"

def errorTypeAlreadyExists : String := "WorkflowInstanceAlreadyExists"

def HistoryEvent.failureDetails (e : HistoryEvent) : Option TaskFailureDetails :=
  match e.eventType with
  | .childWorkflowInstanceFailed f => f.failureDetails
  | .taskFailed f => f.failureDetails
  | _ => none

/-- Whether the event looks like a failure that this app made up itself, which carries no
attestation. -/
def Orchestrator.isLocalSyntheticFailure (o : Orchestrator) (e : HistoryEvent) : Bool :=
  if ((e.router.map TaskRouter.sourceAppID).getD "") ≠ o.appID then false
  else
    let errorType := (e.failureDetails.map TaskFailureDetails.errorType).getD ""
    errorType = errorTypeAccessPolicyDenied || errorType = errorTypeAlreadyExists

section Admit
variable {B : Type}

/-- Verify the attestation of an event. A failure is judged again on a fresh load, and only if
that fails for good is the instance condemned. -/
def Orchestrator.verifyAndAbsorbAttestation (o : Orchestrator) (env : Env) (a : Actor B) (s : State B)
    (e : HistoryEvent) : Except OrchError (State B × HistoryEvent) × Actor B :=
  let verify := verifyInboxAttestation (B := B) o.verification o.signer o.actorID env.now
  if o.isLocalSyntheticFailure e then (.ok (s, e), a)
  else match verify a.certVerifyCache s e with
    | (.ok (s, e), cache) => (.ok (s, e), { a with certVerifyCache := cache, cached := some s })
    | (.error verr, cache) =>
      let a := { a with certVerifyCache := cache }
      if !env.reloads then (.error (.recoverable verr.message), a)
      else match a.durable with
        | none => (.error .instanceNotFound, a)
        | some d =>
          let fresh := o.stateOf d a.etag
          match verify a.certVerifyCache fresh e with
          | (.ok _, cache) =>
            (.error (.schedulingNotDurable verr.message), { a with certVerifyCache := cache, cached := none })
          | (.error fverr, cache) =>
            let a := { a with certVerifyCache := cache }
            if fverr.unknownTaskScheduledID then
              match activityResolution e with
              | some (taskID, _) =>
                if (fresh.findHistoryEventByID taskID).isNone then (.error (.schedulingNotDurable fverr.message), a)
                else (.error .instanceNotFound, a)
              | none => (.error .instanceNotFound, a)
            else match Orchestrator.tombstoneTamperedState env a fresh fverr.message with
              | (.error err, a) => (.error err, a)
              | (.ok _, a) => (.error .instanceNotFound, a)

/-- Admit an event. The entry returned is the one whose settlement the caller awaits. -/
def Orchestrator.admitEvent (o : Orchestrator) (env : Env) (a : Actor B) (e : HistoryEvent) (sender : CompletionSender)
    (canFold : Bool) : Except OrchError (Option FoldEntry) × Actor B :=
  let fresh := a.cached.isNone
  match o.loadInternalState env a with
  | (.error err, a) => (.error err, a)
  | (.ok none, a) => (.error .instanceNotFound, a)
  | (.ok (some s), a) =>
    match o.classifyEvent a.held e s sender canFold with
    | .reject err => (.error err, a)
    | .drop _ _ =>
      if fresh then (.ok none, a)
      else match env.confirm with
        | .current => (.ok none, a)
        | .stale => (.error (.recoverable "cached state is stale; reloading"), a.invalidateCachedState)
        | .gone => (.error .instanceNotFound, a.invalidateCachedState)
        | .unreadable => (.error (.recoverable "failed to confirm the cached state"), a)
    | .duplicate pending =>
      if env.drives then (.ok pending, a) else (.error (.recoverable "failed to arm the wake-up"), a)
    | .fold =>
      match o.verifyAndAbsorbAttestation env a s e with
      | (.error err, a) => (.error err, a)
      | (.ok (s, e), a) =>
        let (entry, held) := a.held.foldSubmit e s.generation
        (.ok (some entry), { a with held := held })
    | .inbox =>
      match o.verifyAndAbsorbAttestation env a s e with
      | (.error err, a) => (.error err, a)
      | (.ok (s, e), a) =>
        -- the row is saved before its wake-up is armed
        match a.save (s.addToInbox e) env.save with
        | (false, a) => (.error (.recoverable "failed to save the inbox event"), a)
        | (true, a) =>
          if env.drives then (.ok none, a) else (.error (.recoverable "failed to arm the wake-up"), a)

/-! ## Deliveries -/

/-- How an event reaches the actor. -/
inductive Delivery where
  /-- A call of the AddWorkflowEvent method; the metadata name the sending child. -/
  | method (caller instanceID parentExecutionID : String) (canFold : Bool)
  /-- An activity-result reminder; the execution id is part of its name. -/
  | reminder (sourceAppID parentExecutionID : String)
  deriving DecidableEq, Repr

def Delivery.caller : Delivery → String
  | .method caller _ _ _ => caller
  | .reminder sourceAppID _ => sourceAppID

/-- Without policies every call passes, and so do those of the app itself. -/
def Orchestrator.checkAccessPolicy (o : Orchestrator) (env : Env) (caller : String) (e : HistoryEvent) (name : String) :
    Bool :=
  match env.policies with
  | none => true
  | some allows => caller = o.appID || allows caller e name

/-- How long a completion may be refused because its scheduling is not durable yet. -/
def schedulingDurableWindow : Int := 30000000000

def Orchestrator.deliver (o : Orchestrator) (env : Env) (a : Actor B) (e : HistoryEvent) :
    Delivery → Except OrchError (Option FoldEntry) × Actor B
  | .method caller instanceID parentExecutionID canFold =>
    -- a policy for another app's call looks up the workflow's name
    match (if env.policies.isSome && caller ≠ o.appID then o.loadInternalState env a else (.ok a.cached, a)) with
    | (.error err, a) => (.error err, a)
    | (.ok s, a) =>
      let name := ((s.bind State.getExecutionStartedEvent).map ExecutionStartedEvent.name).getD ""
      if !o.checkAccessPolicy env caller e name then (.error .permissionDenied, a)
      else o.admitEvent env a e ⟨instanceID, parentExecutionID, ""⟩ canFold
  | .reminder sourceAppID parentExecutionID =>
    -- only an activity result belongs here, and this app's own child failure
    if !isActivityResult e && !(isChildResult e && (sourceAppID = "" || sourceAppID = o.appID)) then (.ok none, a)
    else
      let sender := ⟨"", parentExecutionID, sourceAppID⟩
      match o.admitEvent env a e sender false with
      | (.error (.schedulingNotDurable context), a) =>
        let a := a.invalidateCachedState
        let age := env.now - e.timestamp.getD 0
        if -schedulingDurableWindow < age ∧ age < schedulingDurableWindow then
          (.error (.schedulingNotDurable context), a)
        else
          -- the last word is said on a fresh load
          match o.admitEvent env a e sender false with
          | (.error (.schedulingNotDurable _), a) => (.ok none, a)
          | (.error .instanceNotFound, a) => (.ok none, a)
          | r => r
      | (.error .instanceNotFound, a) => (.ok none, a)
      | r => r

end Admit

end Dapr.Workflow
