import Dapr.Subscriber.Store
/-!
# Background retries of subscriptions

A subscription whose start fails is retried by a goroutine of its own. It holds the subscriber's lock only to take
the retry context of its pubsub and to record what it has started. In between, everything else goes on: resources
are added and deleted, components are reloaded, subscriptions are stopped. What holds the lock from beginning to
end is one step; the steps of a retry are single ones.
-/

namespace Dapr.Subscriber

variable {ρ : Type}

/-- What a subscription is known by. -/
inductive SubId where
  | declarative (name : String)
  | programmatic (pubsubName topic : String)
  deriving DecidableEq, Repr

def NamedSubscription.id (n : NamedSubscription ρ) : SubId :=
  match n.name with
  | some name => .declarative name
  | none => .programmatic n.sub.pubsubName n.sub.topic

namespace Retries

/-- Where a retry is. -/
inductive Pc where
  | entering
  | checking
  | starting
  /-- Its subscription runs and is not recorded. -/
  | recording
  | failed
  | arming
  /-- It waits for the timer or the cancellation of its context. -/
  | parked
  | done
  deriving DecidableEq, Repr

/-- A `retrySubscription` goroutine, with the component it was given. -/
structure Retry (ρ : Type) where
  pubsub : PubSubItem
  sub : NamedSubscription ρ
  ctx : Option Nat
  pc : Pc

def Retry.pubsubName (r : Retry ρ) : String := r.sub.sub.pubsubName

def Retry.isCancelled (cancelled : List Nat) (r : Retry ρ) : Bool := r.ctx.any (· ∈ cancelled)

/-- A subscription that runs, and the retry that started it, if one did. -/
structure Running (ρ : Type) where
  sub : NamedSubscription ρ
  startedBy : Option Nat

/-- What an operation has put an end to. -/
inductive Target where
  | subscription (name : String)
  | pubsub (pubsubName : String)
  | everything
  deriving DecidableEq, Repr

/-- The subscription is one of those that are stopped. -/
def Target.covers (n : NamedSubscription ρ) : Target → Prop
  | .subscription name => n.name = some name
  | .pubsub pubsubName => n.sub.pubsubName = pubsubName
  | .everything => True

/-- Contexts are numbered as they are made. `returned` is the history of deletes, stops and reloads that have
returned, each with the number of retries there were before it. -/
structure State (ρ : Type) where
  store : Store ρ
  appSubs : List (Running ρ)
  appSubActive : Bool
  closed : Bool
  retryCtx : AList fun _ : String => Nat
  cancelled : List Nat
  contexts : Nat
  retries : List (Retry ρ)
  returned : List (Nat × Target)

def State.init : State ρ := ⟨Store.empty, [], false, false, ∅, [], 0, [], []⟩

/-- What is recorded, and what retries have started and not recorded. -/
def State.live (s : State ρ) : List (Running ρ) :=
  s.appSubs ++ (s.retries.zipIdx.filter (·.1.pc = .recording)).map fun e => ⟨e.1.sub, some e.2⟩

/-! ## A retry -/

def State.setRetry (s : State ρ) (i : Nat) (r : Retry ρ) : State ρ := { s with retries := s.retries.set i r }

/-- The steps that change nothing but the retry itself. -/
inductive Move where
  | check
  | start (ok : Bool)
  | backoff
  | park
  | wake
  | quit
  deriving DecidableEq, Repr

def Retry.next (closed : Bool) (cancelled : List Nat) (r : Retry ρ) (m : Move) : Option Pc :=
  match r.pc, m with
  | .checking, .check => some (if closed then .done else .starting)
  | .starting, .start ok => some (if r.pubsub.allows r.sub.topic && ok then .recording else .failed)
  | .failed, .backoff => some (if r.isCancelled cancelled then .done else .arming)
  | .arming, .park => if r.isCancelled cancelled then none else some .parked
  -- if the timer has fired before it waits, a cancellation may go unnoticed
  | .arming, .wake => some .checking
  | .arming, .quit => if r.isCancelled cancelled then some .done else none
  | .parked, .wake => if r.isCancelled cancelled then none else some .checking
  | .parked, .quit => if r.isCancelled cancelled then some .done else none
  | _, _ => none

/-- Take the retry context of the pubsub, or make one. -/
def enter (s : State ρ) (i : Nat) (r : Retry ρ) : State ρ :=
  match s.retryCtx.lookup r.pubsubName with
  | some ctx => s.setRetry i { r with ctx := some ctx, pc := .checking }
  | none =>
    { s.setRetry i { r with ctx := some s.contexts, pc := .checking } with
      retryCtx := s.retryCtx.insert r.pubsubName s.contexts
      contexts := s.contexts + 1 }

/-- If it cannot be recorded, the subscription is stopped. -/
def record (s : State ρ) (i : Nat) (r : Retry ρ) : State ρ :=
  let ended := s.setRetry i { r with pc := .done }
  if !s.closed && s.appSubActive then { ended with appSubs := s.appSubs ++ [⟨r.sub, some i⟩] } else ended

def cancelRetries (s : State ρ) (pubsubName : String) : State ρ :=
  match s.retryCtx.lookup pubsubName with
  | none => s
  | some ctx => { s with cancelled := ctx :: s.cancelled, retryCtx := s.retryCtx.erase pubsubName }

/-- Cancelling changes contexts only. -/
theorem cancelRetries_eq (s : State ρ) (pubsubName : String) :
    cancelRetries s pubsubName =
      { s with
        cancelled := (cancelRetries s pubsubName).cancelled
        retryCtx := (cancelRetries s pubsubName).retryCtx } := by
  unfold cancelRetries
  split <;> rfl

def cancelAllRetries (s : State ρ) : State ρ :=
  { s with cancelled := s.retryCtx.entries.map (·.2) ++ s.cancelled, retryCtx := ∅ }

/-! ## Under the lock -/

/-- Start subscriptions, each on its component. A start that fails is left to a retry. -/
def State.launch (s : State ρ) (ok : NamedSubscription ρ → Bool) (jobs : List (PubSubItem × NamedSubscription ρ)) :
    State ρ :=
  let starts (job : PubSubItem × NamedSubscription ρ) : Bool := job.1.allows job.2.topic && ok job.2
  { s with
    appSubs := s.appSubs ++ (jobs.filter starts).map fun job => ⟨job.2, none⟩
    retries := s.retries ++ (jobs.filter (!starts ·)).map fun job => ⟨job.1, job.2, none, .entering⟩ }

def State.stopSubs (s : State ρ) (pubsubName : String) : State ρ :=
  { s with appSubs := s.appSubs.filter (·.sub.sub.pubsubName ≠ pubsubName) }

def State.stopNamed (s : State ρ) (name pubsubName : String) : State ρ :=
  { s with appSubs := s.appSubs.eraseP fun u => u.sub.sub.pubsubName = pubsubName ∧ u.sub.name = some name }

def jobs (store : Store ρ) (pubsubName : String) (ps : PubSubItem) : List (PubSubItem × NamedSubscription ρ) :=
  (store.listSubscriptionsAppByPubSub pubsubName).map (ps, ·)

def startAppSubscriptions (s : State ρ) (ok : NamedSubscription ρ → Bool) : State ρ :=
  if s.appSubActive || s.closed then s
  else
    State.launch { s with appSubActive := true, appSubs := [] } ok
      (s.store.pubsubs.entries.flatMap fun e => jobs s.store e.1 e.2)

def stopAppSubscriptions (s : State ρ) : State ρ :=
  if s.appSubActive then { cancelAllRetries s with appSubActive := false, appSubs := [] } else s

def stopAllSubscriptionsForever (s : State ρ) : State ρ :=
  { cancelAllRetries s with closed := true, appSubs := [] }

/-- `Run`, when its context is done. -/
def shutdown (s : State ρ) : State ρ := { cancelAllRetries s with closed := true }

def stopPubSub (s : State ρ) (pubsubName : String) : State ρ := (cancelRetries s pubsubName).stopSubs pubsubName

def reloadPubSub (s : State ρ) (pubsubName : String) (ok : NamedSubscription ρ → Bool) : State ρ :=
  if s.closed then s
  else
    match s.appSubActive, s.store.pubsubs.lookup pubsubName with
    | true, some ps => (stopPubSub s pubsubName).launch ok (jobs s.store pubsubName ps)
    | _, _ => stopPubSub s pubsubName

def State.addDeclarative (s : State ρ) (d : DeclarativeSubscription ρ) : State ρ :=
  { s with store := s.store.addDeclarativeSubscription d }

/-- A subscription that does not start is retried and is not stored. -/
def addDeclaredAppSubscription (s : State ρ) (d : DeclarativeSubscription ρ) (ok : Bool) : State ρ :=
  if !s.appSubActive || s.closed then s.addDeclarative d
  else
    let stopped := s.stopNamed d.name d.sub.pubsubName
    match s.store.pubsubs.lookup d.sub.pubsubName with
    | none => stopped.addDeclarative d
    | some ps =>
      if ps.allows d.sub.topic then
        let launched := stopped.launch (fun _ => ok) [(ps, d.named)]
        if ok then launched.addDeclarative d else launched
      else stopped.addDeclarative d

def handleSubscriptionClose (s : State ρ) (name pubsubName : String) : State ρ :=
  match s.store.getDeclarativeSubscription name with
  | none => s
  | some _ =>
    let deleted := { s with store := s.store.deleteDeclarativeSubscription name }
    if !s.appSubActive || s.closed then deleted else deleted.stopNamed name pubsubName

/-! ## Runs -/

/-- `ok` says which starts succeed. An update is a `close` and then an `add`. Programmatic subscriptions are loaded
under the lock of a start or a reload; a reload that cannot load them ends as a `stopPubSub`. -/
inductive Label (ρ : Type) where
  | move (i : Nat) (m : Move)
  | enter (i : Nat)
  | record (i : Nat)
  | startApp (ok : NamedSubscription ρ → Bool)
  | stopApp
  | stopForever
  | shutdown
  | setProgrammatics (programmatics : List (Subscription ρ))
  | addPubSub (pubsubName : String) (ps : PubSubItem)
  | deletePubSub (pubsubName : String)
  | reloadPubSub (pubsubName : String) (ok : NamedSubscription ρ → Bool)
  | stopPubSub (pubsubName : String)
  | add (d : DeclarativeSubscription ρ) (ok : Bool)
  | close (name pubsubName : String)

/-- An operation has returned; there were `retries` before it. -/
def State.mark (s : State ρ) (retries : Nat) (target : Target) : State ρ :=
  { s with returned := (retries, target) :: s.returned }

def next (s : State ρ) : Label ρ → Option (State ρ)
  | .move i m => do
    let r ← s.retries[i]?
    let pc ← r.next s.closed s.cancelled m
    some (s.setRetry i { r with pc })
  | .enter i => do
    let r ← s.retries[i]?
    if r.pc = .entering then some (enter s i r) else none
  | .record i => do
    let r ← s.retries[i]?
    if r.pc = .recording then some (record s i r) else none
  | .startApp ok => some (startAppSubscriptions s ok)
  | .stopApp => some ((stopAppSubscriptions s).mark s.retries.length .everything)
  | .stopForever => some ((stopAllSubscriptionsForever s).mark s.retries.length .everything)
  | .shutdown => some (shutdown s)
  | .setProgrammatics programmatics => some { s with store := s.store.setProgrammaticSubscriptions programmatics }
  | .addPubSub pubsubName ps => some { s with store := s.store.addPubSub pubsubName ps }
  | .deletePubSub pubsubName => some { s with store := s.store.deletePubSub pubsubName }
  | .reloadPubSub pubsubName ok =>
    some ((reloadPubSub s pubsubName ok).mark s.retries.length (.pubsub pubsubName))
  | .stopPubSub pubsubName => some ((stopPubSub s pubsubName).mark s.retries.length (.pubsub pubsubName))
  | .add d ok => some (addDeclaredAppSubscription s d ok)
  | .close name pubsubName =>
    some ((handleSubscriptionClose s name pubsubName).mark s.retries.length (.subscription name))

end Retries

end Dapr.Subscriber
