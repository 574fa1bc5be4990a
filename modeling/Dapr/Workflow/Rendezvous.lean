import Mathlib.Logic.Basic
/-!
# The rendezvous of an executor actor

The executor actor of a task is where its completion meets whoever waits for it. A completion goes
to a waiter registered on this host, or is parked in a channel of one slot until a claim or a watch
stream takes it. A workflow and an activity may share an actor: a claim or a watch that finds the
other one's completion moves it to a second slot, `displaced`. When the actor retires, what it still
holds is handed off to a fresh one.

Everything happens under the actor's mutex, apart from a watch's receive from the channel: that is
a step of its own, and the watch takes the mutex only afterwards.

The completions that were accepted are numbered, and a ledger says what became of each one. A delivery
or a claim leaves a copy for a watch that is stale. Nothing in the actor tells a copy of a claimed one from
what it is a copy of, so that it can be claimed or handed off too, and that is written down like the rest.
The copies that watches took are listed. All of this only records what happened.
-/

namespace Dapr.Workflow.Rendezvous

inductive TaskType where
  | activity
  | workflow
  deriving DecidableEq, Repr

theorem TaskType.eq_of_ne {t t' t'' : TaskType} (h : t ≠ t'') (h' : t' ≠ t'') : t = t' := by
  cases t <;> cases t' <;> cases t'' <;> simp_all

/-- A completion as it is sent to the actor: what it is for, whether it carries the marker of a
forwarded one, and how often it was handed off. -/
structure Completion where
  taskType : TaskType
  forwarded : Bool
  handoffs : Option Nat
  deriving DecidableEq, Repr

def maxHandoffs : Nat := 3

/-- The handoff count for the next move, if it may move at all. -/
def nextHandoff (c : Completion) : Option Nat :=
  match c.handoffs with
  | some n => if n < maxHandoffs then some (n + 1) else none
  | none => if c.forwarded then none else some 1

/-- A completion in the actor; and whether it is a copy, parked for a stale watch, of one that was
delivered or claimed. -/
structure Parked extends Completion where
  id : Nat
  copy : Bool
  deriving DecidableEq, Repr

/-- What became of an accepted completion. -/
inductive Way where
  | held
  | delivered
  | claimed
  | streamed
  | handedOff
  | replaced (id : Nat)
  deriving DecidableEq, Repr

/-- Where a watch is. -/
inductive Place where
  | looking
  | selecting
  /-- Took a completion off the channel; about to take the mutex. -/
  | received (d : Parked)
  | ending
  deriving DecidableEq, Repr

/-- A watch; one of an older daprd names no type and takes any completion. -/
structure Watch where
  watchType : Option TaskType
  place : Place
  deriving DecidableEq, Repr

def Watch.forWatcher (w : Watch) (d : Parked) : Bool :=
  match w.watchType with
  | none => true
  | some t => d.taskType = t

/-- The actor of a task, with all completions so far. -/
structure Executor where
  completeCh : Option Parked
  displaced : Option Parked
  cancelCh : Bool
  closeCh : Bool
  /-- The types for which a waiter is registered on this host. -/
  pending : List TaskType
  /-- How many calls have entered and not begun. -/
  entered : Nat
  /-- The completers that wait for a free slot; and whether one was freed since they looked. -/
  waiting : List (Completion × Bool)
  watch : Option Watch
  /-- What the retirement drained and has not handed off yet. -/
  drained : List Parked
  accepted : List TaskType
  ledger : List (Nat × Way)
  /-- The completions that a stream was passed a copy of. -/
  copied : List Nat
  deriving DecidableEq, Repr

inductive Cause where
  | ctxDone
  | cancelCh
  | closeCh
  deriving DecidableEq, Repr

/-- What completers, watches and the host do. -/
inductive Move where
  | register (t : TaskType)
  | deregister (t : TaskType)
  | enter
  /-- A call that has entered is given up before it begins. -/
  | leave
  | complete (c : Completion)
  | resume (i : Nat)
  | giveUp (i : Nat) (cause : Cause)
  | claim (t : TaskType)
  | cancel (t : TaskType)
  | watchComplete (watchType : Option TaskType)
  | look
  | receive
  /-- The watch takes the mutex, with the completion that it received. -/
  | settle
  | stop (cause : Cause)
  | unlock
  | deactivate
  | handOff
  deriving DecidableEq, Repr

namespace Executor

def fresh : Executor := ⟨none, none, false, false, [], 0, [], none, [], [], [], []⟩

def record (s : Executor) (d : Parked) (way : Way) : Executor :=
  { s with ledger := s.ledger ++ [(d.id, way)] }

/-- Pass it to the watch's stream. -/
def stream (s : Executor) (d : Parked) : Executor :=
  if d.copy then { s with copied := s.copied ++ [d.id] } else s.record d .streamed

/-- Park it if the slot is free; and whether it was. -/
def parkLocked (s : Executor) (d : Parked) : Bool × Executor :=
  match s.completeCh with
  | none => (true, { s with completeCh := some d })
  | some _ => (false, s)

def slotFreedLocked (s : Executor) : Executor :=
  { s with waiting := s.waiting.map fun (c, _) => (c, true) }

/-- Deliver to a registered waiter, and park a copy for a stale watch. The copy is marked so that it
is never handed off. -/
def deliverLocked (s : Executor) (c : Completion) : Option Executor :=
  if c.taskType ∈ s.pending then
    let d : Parked := ⟨{ c with forwarded := true, handoffs := none }, s.accepted.length, true⟩
    let s := { s with accepted := s.accepted ++ [c.taskType], ledger := s.ledger ++ [(s.accepted.length, Way.delivered)] }
    some (s.parkLocked d).2
  else none

inductive Outcome where
  | accepted
  | closed
  | full
  deriving DecidableEq, Repr

/-- A completer's section under the mutex. -/
def tryComplete (s : Executor) (c : Completion) : Outcome × Executor :=
  match s.deliverLocked c with
  | some s => (.accepted, s)
  | none =>
    if s.closeCh then (.closed, s)
    else match s.parkLocked ⟨c, s.accepted.length, false⟩ with
      | (true, s) => (.accepted, { s with accepted := s.accepted ++ [c.taskType] })
      | (false, s) => (.full, s)

def complete (s : Executor) (c : Completion) : Executor :=
  match s.tryComplete c with
  | (.full, s) => { s with waiting := s.waiting ++ [(c, false)] }
  | (_, s) => s

def resume (s : Executor) (i : Nat) (c : Completion) : Executor :=
  match s.tryComplete c with
  | (.full, s) => { s with waiting := s.waiting.set i (c, false) }
  | (_, s) => { s with waiting := s.waiting.eraseIdx i }

/-- A completion goes to a claim; a stale watch is fed a copy. -/
def claimed (s : Executor) (d : Parked) : Executor :=
  let s := s.record d .claimed
  if s.watch.isSome then (s.parkLocked { d with copy := true }).2 else s

/-- What is in the displaced slot is overwritten. -/
def replace (s : Executor) (d : Parked) : Executor :=
  s.displaced.elim s fun o => if o.copy then s else s.record o (.replaced d.id)

/-- Put a completion of the other type in the displaced slot, over what is there. -/
def displace (s : Executor) (d : Parked) : Executor := { s.replace d with displaced := some d }

def drain (s : Executor) (t : TaskType) : Executor :=
  match s.completeCh with
  | none => s
  | some d =>
    let s := { s with completeCh := none }.slotFreedLocked
    if d.taskType ≠ t then s.displace d else s.claimed d

def claim (s : Executor) (t : TaskType) : Executor :=
  match s.displaced with
  | some d => if d.taskType = t then { s with displaced := none }.claimed d else s.drain t
  | none => s.drain t

def cancel (s : Executor) (t : TaskType) : Executor :=
  if t ∈ s.pending ∨ s.closeCh then s else { s with cancelCh := true }

def goto (s : Executor) (w : Watch) (place : Place) : Executor := { s with watch := some { w with place := place } }

/-- The watch serves the displaced completion if it is its own. -/
def look (s : Executor) (w : Watch) : Executor :=
  match s.displaced with
  | some d => if w.forWatcher d then ({ s with displaced := none }.stream d).goto w .ending else s.goto w .selecting
  | none => s.goto w .selecting

/-- The watch has the mutex, with a completion that it took off the channel. -/
def settle (s : Executor) (w : Watch) (d : Parked) : Executor :=
  let s := s.slotFreedLocked
  if w.forWatcher d then (s.stream d).goto w .ending
  else match s.displaced with
    | some mine =>
      if w.forWatcher mine then ({ s with displaced := some d }.stream mine).goto w .ending
      else (s.displace d).goto w .looking
    | none => (s.displace d).goto w .looking

def deactivate (s : Executor) : Executor :=
  if s.closeCh then s
  else { s with
    closeCh := true, displaced := none, completeCh := none, drained := s.displaced.toList ++ s.completeCh.toList }

def handOff (s : Executor) : Executor :=
  { (s.drained.foldl (fun s d => if (nextHandoff d.toCompletion).isSome then s.record d .handedOff else s) s) with
    drained := [] }

/-- Whether a waiting call may see the cause; a context may be done at any time. -/
def signalled (s : Executor) : Cause → Bool
  | .ctxDone => true
  | .cancelCh => s.cancelCh
  | .closeCh => s.closeCh

def step (s : Executor) : Move → Option Executor
  | .register t => some { s with pending := t :: s.pending }
  | .deregister t => some { s with pending := s.pending.filter (· ≠ t) }
  | .enter => if s.closeCh then none else some { s with entered := s.entered + 1 }
  | .leave =>
    match s.entered with
    | 0 => none
    | n + 1 => some { s with entered := n }
  | .complete c =>
    match s.entered with
    | 0 => none
    | n + 1 => some ({ s with entered := n }.complete c)
  | .resume i =>
    match s.waiting[i]? with
    | some (c, true) => some (s.resume i c)
    | _ => none
  | .giveUp i cause =>
    if s.signalled cause ∧ i < s.waiting.length then some { s with waiting := s.waiting.eraseIdx i } else none
  | .claim t =>
    match s.entered with
    | 0 => none
    | n + 1 => some ({ s with entered := n }.claim t)
  | .cancel t =>
    match s.entered with
    | 0 => none
    | n + 1 => some ({ s with entered := n }.cancel t)
  | .watchComplete watchType =>
    match s.entered, s.watch with
    | n + 1, none => some { s with entered := n, watch := some ⟨watchType, .looking⟩ }
    | _, _ => none
  | .look =>
    match s.watch with
    | some ⟨watchType, .looking⟩ => some (s.look ⟨watchType, .looking⟩)
    | _ => none
  | .receive =>
    match s.watch, s.completeCh with
    | some ⟨watchType, .selecting⟩, some d => some ({ s with completeCh := none }.goto ⟨watchType, .selecting⟩ (.received d))
    | _, _ => none
  | .settle =>
    match s.watch with
    | some ⟨watchType, .received d⟩ => some (s.settle ⟨watchType, .received d⟩ d)
    | _ => none
  | .stop cause =>
    match s.watch with
    | some ⟨watchType, .selecting⟩ =>
      if s.signalled cause then some (s.goto ⟨watchType, .selecting⟩ .ending) else none
    | _ => none
  | .unlock =>
    match s.watch with
    | some ⟨_, .ending⟩ => some { s with watch := none }
    | _ => none
  | .deactivate => some s.deactivate
  | .handOff =>
    -- the retirement waits for every call in flight
    if s.closeCh ∧ s.entered = 0 ∧ s.waiting = [] ∧ s.watch = none then some s.handOff else none

end Executor

end Dapr.Workflow.Rendezvous
