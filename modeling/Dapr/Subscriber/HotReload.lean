import Dapr.Subscriber.Store
/-!
# Hot reload of subscriptions

Subscriptions and pubsub components are added, updated and removed while daprd runs. Each event is handled in one
go, under the subscriber's lock. A start that fails is retried in the background. Here every start succeeds, and the
only ones that cannot are those of topics that the component does not allow.
-/

namespace Dapr.Subscriber

variable {ρ : Type}

/-- `programmatics` is what the application answers, if there is a channel to it. -/
structure Config (ρ : Type) where
  appID : String
  programmatics : Option (List (Subscription ρ))

/-- A subscription resource. It has no `route` if one of its rules does not compile. -/
structure Resource (ρ : Type) where
  name : String
  pubsubName : String
  topic : String
  scopes : List String
  route : Option ρ

/-- The subscriber with what runs. -/
structure State (ρ : Type) where
  store : Store ρ
  appSubs : String → List (NamedSubscription ρ)
  appSubActive : Bool
  hasInitProg : Bool

def State.fresh (store : Store ρ) : State ρ := ⟨store, fun _ => [], false, false⟩

def State.setSubs (s : State ρ) (pubsubName : String) (subs : List (NamedSubscription ρ)) : State ρ :=
  { s with appSubs := Function.update s.appSubs pubsubName subs }

def initProgrammaticSubscriptions (cfg : Config ρ) (s : State ρ) : State ρ :=
  match cfg.programmatics with
  | none => s
  | some programmatics =>
    if s.hasInitProg ∨ s.store.pubsubs.keys = [] then s
    else { s with store := s.store.setProgrammaticSubscriptions programmatics, hasInitProg := true }

def Store.starts (store : Store ρ) (pubsubName : String) : List (NamedSubscription ρ) :=
  match store.pubsubs.lookup pubsubName with
  | none => []
  | some ps => (store.listSubscriptionsAppByPubSub pubsubName).filter fun n => ps.allows n.topic

def startAppSubscriptions (cfg : Config ρ) (s : State ρ) : State ρ :=
  if s.appSubActive then s
  else
    let loaded := initProgrammaticSubscriptions cfg s
    { loaded with appSubActive := true, appSubs := loaded.store.starts }

def stopAppSubscriptions (s : State ρ) : State ρ :=
  if s.appSubActive then { s with appSubActive := false, appSubs := fun _ => [] } else s

/-- `sub` is the subscription to start, if it is not deleted. -/
def reloadDeclaredAppSubscription (s : State ρ) (name pubsubName : String) (sub : Option (Subscription ρ)) : State ρ :=
  if s.appSubActive then
    let stopped := s.setSubs pubsubName ((s.appSubs pubsubName).eraseP (·.name = some name))
    match s.store.pubsubs.lookup pubsubName, sub with
    | some ps, some sub =>
      if ps.allows sub.topic then
        stopped.setSubs sub.pubsubName (stopped.appSubs sub.pubsubName ++ [⟨some name, sub⟩])
      else stopped
    | _, _ => stopped
  else s

def addDeclaredAppSubscription (s : State ρ) (d : DeclarativeSubscription ρ) : State ρ :=
  { reloadDeclaredAppSubscription s d.name d.sub.pubsubName (some d.sub) with
    store := s.store.addDeclarativeSubscription d }

/-- The subscription of a resource, if it is for this application and its rules compile. -/
def Resource.admitted (cfg : Config ρ) (res : Resource ρ) : Option (DeclarativeSubscription ρ) :=
  if res.scopes ≠ [] ∧ cfg.appID ∉ res.scopes then none
  else res.route.map fun route => ⟨res.name, res.pubsubName, res.topic, route⟩

def handleSubscriptionAdd (cfg : Config ρ) (s : State ρ) (res : Resource ρ) : State ρ :=
  match res.admitted cfg with
  | none => s
  | some d => addDeclaredAppSubscription s d

def handleSubscriptionClose (s : State ρ) (name pubsubName : String) : State ρ :=
  match s.store.getDeclarativeSubscription name with
  | none => s
  | some _ =>
    reloadDeclaredAppSubscription { s with store := s.store.deleteDeclarativeSubscription name } name pubsubName none

/-- The reconciler closes the subscription that it knows before it adds the new one. -/
def updateSubscription (cfg : Config ρ) (s : State ρ) (res : Resource ρ) : State ρ :=
  match s.store.getDeclarativeSubscription res.name with
  | none => handleSubscriptionAdd cfg s res
  | some old => handleSubscriptionAdd cfg (handleSubscriptionClose s old.name old.sub.pubsubName) res

def reloadPubSub (cfg : Config ρ) (s : State ρ) (pubsubName : String) : State ρ :=
  if s.appSubActive then
    let loaded := initProgrammaticSubscriptions cfg (s.setSubs pubsubName [])
    loaded.setSubs pubsubName (loaded.store.starts pubsubName)
  else s.setSubs pubsubName []

/-- `Init` of a pubsub component, which may replace one. -/
def initPubSub (cfg : Config ρ) (s : State ρ) (pubsubName : String) (ps : PubSubItem) : State ρ :=
  reloadPubSub cfg { s with store := s.store.addPubSub pubsubName ps } pubsubName

def closePubSub (s : State ρ) (pubsubName : String) : State ρ :=
  { s.setSubs pubsubName [] with store := s.store.deletePubSub pubsubName }

/-- What the subscriber is told. -/
inductive Event (ρ : Type) where
  | start
  | stop
  | add (res : Resource ρ)
  | update (res : Resource ρ)
  | delete (name pubsubName : String)
  | init (pubsubName : String) (ps : PubSubItem)
  | close (pubsubName : String)

def handle (cfg : Config ρ) (s : State ρ) : Event ρ → State ρ
  | .start => startAppSubscriptions cfg s
  | .stop => stopAppSubscriptions s
  | .add res => handleSubscriptionAdd cfg s res
  | .update res => updateSubscription cfg s res
  | .delete name pubsubName => handleSubscriptionClose s name pubsubName
  | .init pubsubName ps => initPubSub cfg s pubsubName ps
  | .close pubsubName => closePubSub s pubsubName

/-- Every subscription of the pubsub can start. -/
def Store.startable (store : Store ρ) (pubsubName : String) : Bool :=
  match store.pubsubs.lookup pubsubName with
  | none => true
  | some ps => (store.listSubscriptionsAppByPubSub pubsubName).all fun n => ps.allows n.topic

def succeeds (cfg : Config ρ) (s : State ρ) : Event ρ → Bool
  | .start =>
    let store := (initProgrammaticSubscriptions cfg s).store
    s.appSubActive || store.pubsubs.keys.all store.startable
  | .init pubsubName ps => !s.appSubActive || (initPubSub cfg s pubsubName ps).store.startable pubsubName
  | _ => true

def next (cfg : Config ρ) (s : State ρ) (ev : Event ρ) : Option (State ρ) :=
  if succeeds cfg s ev then some (handle cfg s ev) else none

end Dapr.Subscriber
