import Dapr.Lib.Runs
/-!
# The informer of the operator

The operator watches the manifests of a kind and tells the connected sidecars about their changes. A
sidecar is told only about the manifests of its namespace that are scoped to its app.

For each change one event object is made. It is handed to the watchers in turn, in any order, and what
a watcher's channel holds is a pointer to it: what the watcher reads is the object as it is when the
watcher reads it.

Changes come from a cache of the cluster, which is kept here to say what is visible to a watcher. A
manifest that is changed keeps its namespace and its name, and one whose version is unchanged is
unchanged.
-/

namespace Dapr.Operator

variable {σ : Type}

/-! ## Manifests and events -/

structure Manifest (σ : Type) where
  ns : String
  name : String
  scopes : List String
  resourceVersion : String
  spec : σ
  deriving DecidableEq, Repr

def Manifest.key (m : Manifest σ) : String × String := (m.ns, m.name)

/-- The namespace and the app id that a watcher authenticates with. -/
structure Identity where
  ns : String
  appID : String
  deriving DecidableEq, Repr

/-- No scopes are every app's. -/
def Manifest.inScope (m : Manifest σ) (id : Identity) : Bool := m.scopes.length = 0 || id.appID ∈ m.scopes

inductive ResourceEventType where
  | created | updated | deleted
  deriving DecidableEq, Repr

structure Event (σ : Type) where
  manifest : Manifest σ
  type : ResourceEventType
  deriving DecidableEq, Repr

/-- What a watcher is sent: nothing, the shared event object, or an event of its own. -/
inductive AppEvent (σ : Type) where
  | nothing
  | newObj
  | own (event : Event σ)
  deriving DecidableEq, Repr

/-- What a watcher is sent, and the shared event object afterwards. -/
def appEventFromEvent (id : Identity) (newObj : Event σ) (oldObj : Option (Manifest σ)) : AppEvent σ × Event σ :=
  if newObj.manifest.ns ≠ id.ns then (.nothing, newObj)
  else if newObj.manifest.inScope id = false then
    match oldObj with
    | none => (.nothing, newObj)
    | some old => if old.inScope id then (.own ⟨old, .deleted⟩, newObj) else (.nothing, newObj)
  else
    let appInOld := oldObj.any (·.inScope id)
    if appInOld = false ∧ newObj.type = .updated then (.newObj, { newObj with type := .created })
    else (.newObj, newObj)

/-! ## Changes in the cluster -/

abbrev Cache (σ : Type) := String × String → Option (Manifest σ)

def Cache.set (cache : Cache σ) (key : String × String) (m : Option (Manifest σ)) : Cache σ :=
  fun k => if k = key then m else cache k

/-- What the informer is told of a resource. -/
inductive Change (σ : Type) where
  | create (new : Manifest σ)
  | update (old new : Manifest σ)
  | delete (obj : Manifest σ)
  deriving DecidableEq, Repr

namespace Change

def newObj : Change σ → Manifest σ
  | create new => new
  | update _ new => new
  | delete obj => obj

def oldObj : Change σ → Option (Manifest σ)
  | create _ => none
  | update old _ => some old
  | delete _ => none

def eventType : Change σ → ResourceEventType
  | create _ => .created
  | update _ _ => .updated
  | delete _ => .deleted

/-- An update that only repeats what is known. -/
def isResync : Change σ → Bool
  | update old new => old.resourceVersion ≠ "" && old.resourceVersion = new.resourceVersion
  | _ => false

/-- The change can happen to the cached manifests. -/
def Occurs (cache : Cache σ) : Change σ → Prop
  | create new => cache new.key = none
  | update old new => cache old.key = some old ∧ new.key = old.key ∧ ((update old new).isResync = true → new = old)
  | delete obj => cache obj.key = some obj

instance [DecidableEq σ] (cache : Cache σ) : (c : Change σ) → Decidable (c.Occurs cache)
  | create new => inferInstanceAs (Decidable (cache new.key = none))
  | update _ _ => inferInstanceAs (Decidable (_ ∧ _))
  | delete obj => inferInstanceAs (Decidable (cache obj.key = some obj))

def apply (cache : Cache σ) : Change σ → Cache σ
  | create new => Cache.set cache new.key (some new)
  | update _ new => Cache.set cache new.key (some new)
  | delete obj => Cache.set cache obj.key none

end Change

/-! ## The informer -/

/-- An element of a channel: the event object at an address, or an event of the watcher's own. -/
inductive Message (σ : Type) where
  | shared (cell : Nat)
  | own (event : Event σ)
  deriving DecidableEq, Repr

/-- `received` is what was read from the channel. `since` and `initial` are the number of changes and
the cache when the watcher connected. -/
structure Watcher (σ : Type) where
  id : Identity
  ch : List (Message σ)
  received : List (Event σ)
  done : Bool
  since : Nat
  initial : Cache σ

/-- A pass over the watchers, under the lock: those that it is not done with, and the one it is sending to. -/
structure Handling (σ : Type) where
  cell : Nat
  oldObj : Option (Manifest σ)
  todo : List Nat
  sending : Option (Nat × Message σ)

/-- The informer with its watchers, and all changes so far. -/
structure State (σ : Type) where
  cells : List (Event σ)
  cache : Cache σ
  history : List (Change σ)
  idx : Nat
  watchers : Nat → Option (Watcher σ)
  handling : Option (Handling σ)
  stopping : Bool
  closed : Bool

def channelSize : Nat := 10

namespace State

def start (cache : Cache σ) : State σ := ⟨[], cache, [], 0, fun _ => none, none, false, false⟩

def registered (s : State σ) : List Nat := (List.range s.idx).filter fun i => (s.watchers i).isSome

/-- The event object is made, unless the change is a resync. -/
def handleEvent (s : State σ) (c : Change σ) : State σ :=
  let s' := { s with cache := c.apply s.cache, history := s.history ++ [c] }
  if c.isResync then s'
  else
    { s' with
      cells := s.cells ++ [⟨c.newObj, c.eventType⟩]
      handling := some ⟨s.cells.length, c.oldObj, s.registered, none⟩ }

def setWatcher (s : State σ) (i : Nat) (w : Watcher σ) : State σ :=
  { s with watchers := fun j => if j = i then some w else s.watchers j }

def visit (s : State σ) (h : Handling σ) (i : Nat) (id : Identity) (newObj : Event σ) : State σ :=
  let (answer, newObj') := appEventFromEvent id newObj h.oldObj
  let s' := { s with cells := s.cells.set h.cell newObj' }
  match answer with
  | .nothing => { s' with handling := some { h with todo := h.todo.erase i } }
  | .newObj => { s' with handling := some { h with sending := some (i, .shared h.cell) } }
  | .own event => { s' with handling := some { h with sending := some (i, .own event) } }

/-- The pass is done with the watcher it was sending to. -/
def sent (s : State σ) (h : Handling σ) (i : Nat) : State σ :=
  { s with handling := some { h with todo := h.todo.erase i, sending := none } }

end State

def Message.deref (cells : List (Event σ)) : Message σ → Option (Event σ)
  | .shared cell => cells[cell]?
  | .own event => some event

/-! ## Steps -/

/-- What the informer and its watchers do. -/
inductive Label (σ : Type) where
  | change (c : Change σ)
  | visit (i : Nat)
  | send
  | skip
  | abort
  | finish
  | receive (i : Nat)
  | watch (id : Identity)
  | leave (i : Nat)
  | unwatch (i : Nat)
  | stop
  | shutdown

/-- The step of a label, if it can be taken. A change is handled, a watcher registered or removed, and the
informer shut down, only when the lock is free. -/
def next [DecidableEq σ] (s : State σ) : Label σ → Option (State σ)
  | .change c => if s.handling.isNone ∧ c.Occurs s.cache then some (s.handleEvent c) else none
  | .visit i =>
    match s.handling, s.watchers i with
    | some h, some w =>
      if i ∈ h.todo ∧ h.sending = none then (s.cells[h.cell]?).map (s.visit h i w.id) else none
    | _, _ => none
  | .send =>
    match s.handling with
    | some h =>
      match h.sending with
      | some (i, m) =>
        (s.watchers i).bind fun w =>
          if w.ch.length < channelSize then some ((s.sent h i).setWatcher i { w with ch := w.ch ++ [m] }) else none
      | none => none
    | none => none
  -- the watcher has disconnected
  | .skip =>
    match s.handling with
    | some h =>
      match h.sending with
      | some (i, _) => (s.watchers i).bind fun w => if w.done then some (s.sent h i) else none
      | none => none
    | none => none
  -- the informer is shutting down
  | .abort =>
    match s.handling with
    | some h => if s.stopping ∧ h.sending.isSome then some { s with handling := none } else none
    | none => none
  | .finish =>
    match s.handling with
    | some h => if h.todo = [] then some { s with handling := none } else none
    | none => none
  | .receive i =>
    match s.watchers i with
    | some w =>
      match w.ch with
      | m :: rest =>
        (m.deref s.cells).map fun event => s.setWatcher i { w with ch := rest, received := w.received ++ [event] }
      | [] => none
    | none => none
  | .watch id =>
    if s.handling.isNone ∧ s.closed = false then
      some ({ s with idx := s.idx + 1 }.setWatcher s.idx ⟨id, [], [], false, s.history.length, s.cache⟩)
    else none
  | .leave i => (s.watchers i).map fun w => s.setWatcher i { w with done := true }
  | .unwatch i =>
    if s.handling.isNone then some { s with watchers := fun j => if j = i then none else s.watchers j } else none
  | .stop => some { s with stopping := true }
  | .shutdown =>
    if s.handling.isNone ∧ s.stopping then some { s with watchers := fun _ => none, closed := true } else none

end Dapr.Operator
