import Dapr.Lib.Runs
/-!
# The default bulk subscriber

A component without bulk subscriptions hands messages over one at a time. Each is sent to a channel
together with a callback, and its sender waits for the callback. A goroutine collects what comes from
the channel and gives it to the bulk handler: when enough is collected or some time has passed, or, for
a component that asks for it, at once. After the handler's answer the callbacks are called.

A message is known by its entry id, a fresh random id. Callbacks of a batch are called in any order,
which does not matter to what is said here.
-/

namespace Dapr.BulkSubscriber

variable {ι ε : Type} [DecidableEq ι]

def defaultMaxMessagesCount : Nat := 100

def getIntValOrDefault (val : Int) (defaultValue : Nat) : Nat := if 0 < val then val.toNat else defaultValue

/-- `immediate` is what the component asks for. -/
structure Config where
  maxMessagesCount : Int
  immediate : Bool
  deriving DecidableEq, Repr

/-- The size of the channel and of a batch. -/
def Config.max (cfg : Config) : Nat := getIntValOrDefault cfg.maxMessagesCount defaultMaxMessagesCount

/-- The answer of the bulk handler: an error, and responses, which may be absent. -/
structure Outcome (ι ε : Type) where
  responses : Option (List (ι × Option ε))
  err : Option ε

/-- The handler reports an entry as successful: there is no error at all, or none in a response for it. -/
def Outcome.Reports (out : Outcome ι ε) (e : ι) : Prop :=
  out.err = none ∨ ∃ responses, out.responses = some responses ∧ (e, none) ∈ responses

/-- The callbacks that are called for a batch, with their errors. -/
def callbacks (batch : List ι) (out : Outcome ι ε) : List (ι × Option ε) :=
  match out.err with
  | some err =>
    match out.responses with
    | some responses => responses.filter (·.1 ∈ batch)
    | none => batch.map (·, some err)
  | none => batch.map (·, none)

/-- Where the goroutine is: at its select, reading what is in the channel, in the handler (`last` if it
returns afterwards), or returned. -/
inductive Pc where
  | selecting
  | draining
  | handling (last : Bool)
  | returned
  deriving DecidableEq, Repr

/-- `senders` are blocked at the channel. `handed`, `flushes` and `calls` record the messages that the
component handed over, the batches with their answers and the callbacks. -/
structure State (ι ε : Type) where
  senders : List ι
  channel : List ι
  messages : List ι
  pc : Pc
  cancelled : Bool
  handed : List ι
  flushes : List (List ι × Outcome ι ε)
  calls : List (ι × Option ε)

def State.start : State ι ε := ⟨[], [], [], .selecting, false, [], [], []⟩

/-- What the broker and the flushing loop do. -/
inductive Label (ι ε : Type) where
  | arrive (e : ι)
  | send (e : ι)
  | cancel
  | receive
  | drain
  | drained
  | tick
  | done
  | answer (out : Outcome ι ε)

def next (cfg : Config) (s : State ι ε) : Label ι ε → Option (State ι ε)
  | .arrive e => if e ∈ s.handed then none else some { s with senders := s.senders ++ [e], handed := s.handed ++ [e] }
  | .send e =>
    if e ∈ s.senders ∧ s.channel.length < cfg.max then
      some { s with senders := s.senders.erase e, channel := s.channel ++ [e] }
    else none
  | .cancel => some { s with cancelled := true }
  | .receive =>
    match s.pc, s.channel with
    | .selecting, e :: channel => some { s with channel, messages := s.messages ++ [e], pc := .draining }
    | _, _ => none
  | .drain =>
    match s.pc, s.channel with
    | .draining, e :: channel =>
      if s.messages.length < cfg.max then some { s with channel, messages := s.messages ++ [e] } else none
    | _, _ => none
  -- the batch is full, or the channel is empty
  | .drained =>
    if s.pc = .draining ∧ (cfg.max ≤ s.messages.length ∨ s.channel = []) then
      some { s with pc := if cfg.immediate ∨ cfg.max ≤ s.messages.length then .handling false else .selecting }
    else none
  | .tick =>
    if s.pc = .selecting ∧ cfg.immediate = false then
      some { s with pc := if 0 < s.messages.length then .handling false else .selecting }
    else none
  -- the context is done
  | .done =>
    if s.pc = .selecting ∧ s.cancelled then
      some { s with pc := if cfg.immediate = false ∧ 0 < s.messages.length then .handling true else .returned }
    else none
  | .answer out =>
    match s.pc with
    | .handling last =>
      some { s with
        messages := []
        pc := if last then .returned else .selecting
        flushes := s.flushes ++ [(s.messages, out)]
        calls := s.calls ++ callbacks s.messages out }
    | _ => none

end Dapr.BulkSubscriber
