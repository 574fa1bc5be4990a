import Dapr.Lib.Totals
/-!
# Concurrency gates

A gate limits how many triggers of an actor type, or of a named group of them, are in flight at a
time. Each scheduler enforces its share of the limit. A trigger that does not get through waits in
the queue of its first gate.
-/

namespace Dapr.JobPool

open Lib.Totals

/-- What a job is for, as far as its routing depends on it. -/
inductive Target where
  | job
  | actor (actorType : String)
  | unknown
  deriving DecidableEq, Repr

/-- A trigger, with a number that tells it from the others. -/
structure TriggerRequest where
  id : Nat
  appId : String
  target : Target
  concurrencyKey : Option String
  deriving DecidableEq, Repr

def maxPendingPerGate : Nat := 100000

/-- Limit, holders and waiting triggers of a key. -/
structure ConcurrencyGate where
  globalLimit : Nat
  current : Nat
  pending : List TriggerRequest
  deriving DecidableEq, Repr

/-- A scheduler's share of a limit; never none at all. -/
def localLimitFromGlobal (globalLimit schedulerCount schedulerIdx : Nat) : Nat :=
  if schedulerCount ≤ 1 then globalLimit
  else
    let base := globalLimit / schedulerCount
    if base < 1 then 1
    else if schedulerIdx < globalLimit % schedulerCount then base + 1
    else base

namespace ConcurrencyGate

def tryAcquire (g : ConcurrencyGate) (schedulerCount schedulerIdx : Nat) : Option ConcurrencyGate :=
  if g.current < localLimitFromGlobal g.globalLimit schedulerCount schedulerIdx then
    some { g with current := g.current + 1 }
  else none

def release (g : ConcurrencyGate) : ConcurrencyGate :=
  if g.current > 0 then { g with current := g.current - 1 } else g

def enqueue (g : ConcurrencyGate) (req : TriggerRequest) : Option ConcurrencyGate :=
  if g.pending.length ≥ maxPendingPerGate then none else some { g with pending := g.pending ++ [req] }

def dequeue (g : ConcurrencyGate) : Option (TriggerRequest × ConcurrencyGate) :=
  match g.pending with
  | [] => none
  | req :: rest => some (req, { g with pending := rest })

def requeueFront (g : ConcurrencyGate) (reqs : List TriggerRequest) : ConcurrencyGate :=
  { g with pending := reqs ++ g.pending }

/-- With so many more triggers in use. -/
def raise (g : ConcurrencyGate) (n : Nat) : ConcurrencyGate := { g with current := g.current + n }

/-- With so many fewer triggers in use. -/
def lower (g : ConcurrencyGate) (n : Nat) : ConcurrencyGate := { g with current := g.current - n }

theorem release_eq_lower (g : ConcurrencyGate) : g.release = g.lower 1 := by
  unfold release lower
  split
  · rfl
  · next h =>
    rw [show g.current - 1 = g.current by omega]

@[simp] theorem raise_zero (g : ConcurrencyGate) : g.raise 0 = g := rfl

@[simp] theorem lower_zero (g : ConcurrencyGate) : g.lower 0 = g := rfl

theorem lower_raise (g : ConcurrencyGate) (n : Nat) : (g.raise n).lower n = g := by
  simp [raise, lower]

theorem lower_lower (g : ConcurrencyGate) (n n' : Nat) : (g.lower n).lower n' = g.lower (n + n') := by
  simp [lower, Nat.sub_sub]

theorem raise_raise (g : ConcurrencyGate) (n n' : Nat) : (g.raise n).raise n' = g.raise (n + n') := by
  simp [raise, Nat.add_assoc]

end ConcurrencyGate

abbrev Gates := AList fun _ : String => ConcurrencyGate

/-- Acquire the gates in turn, until one does not let the trigger through; the keys acquired, and
whether these are all. -/
def acquireGates (schedulerCount schedulerIdx : Nat) (gates : Gates) : List String → List String × Bool × Gates
  | [] => ([], true, gates)
  | key :: keys =>
    match (gates.lookup key).bind (·.tryAcquire schedulerCount schedulerIdx) with
    | none => ([], false, gates)
    | some gate =>
      let (acquired, ok, gates) := acquireGates schedulerCount schedulerIdx (gates.insert key gate) keys
      (key :: acquired, ok, gates)

def releaseGates (gates : Gates) (keys : List String) : Gates :=
  keys.foldl (fun gates key => modify key ConcurrencyGate.release gates) gates

/-- The keys of the gates that may apply to a trigger: the one of its type, and the one of its group. -/
def keysOf (req : TriggerRequest) : List String :=
  match req.target with
  | .actor typeKey =>
    typeKey :: match req.concurrencyKey with
      | some name => [typeKey ++ ":" ++ name]
      | none => []
  | _ => []

theorem nodup_keysOf (req : TriggerRequest) : (keysOf req).Nodup := by
  have hne : ∀ t n : String, t ≠ t ++ ":" ++ n := by
    intro t n heq
    have := congrArg String.length heq
    simp only [String.length_append] at this
    have hcolon : ":".length = 1 := rfl
    omega
  unfold keysOf
  split
  · next t _ => cases req.concurrencyKey <;> simp [hne t]
  · exact List.nodup_nil

theorem length_keysOf (req : TriggerRequest) : (keysOf req).length ≤ 2 := by
  unfold keysOf
  split
  · cases req.concurrencyKey <;> simp
  · exact Nat.zero_le _

/-- The keys of the gates that a trigger goes through. -/
structure GateKeys where
  keys : List String
  nodup : keys.Nodup
  length_le : keys.length ≤ 2

/-- The gates that apply to a trigger, the one of its type first. -/
def gateKeysForTrigger (gates : Gates) (req : TriggerRequest) : GateKeys where
  keys := (keysOf req).filter (· ∈ gates)
  nodup := (nodup_keysOf req).filter _
  length_le := (List.length_filter_le _ _).trans (length_keysOf req)

section Keys
variable {gates gates' : Gates} {keys acquired : List String} {key : String} {req : TriggerRequest} {count idx : Nat}

theorem lookup_releaseGates :
    (releaseGates gates keys).lookup key = (gates.lookup key).map (·.lower (keys.count key)) := by
  induction keys generalizing gates with
  | nil => simp [releaseGates]
  | cons k keys ih =>
    have hstep : releaseGates gates (k :: keys) = releaseGates (modify k ConcurrencyGate.release gates) keys := rfl
    rw [hstep, ih]
    by_cases hk : key = k
    · subst hk
      rw [lookup_modify_self]
      cases gates.lookup key with
      | none => rfl
      | some g => simp [ConcurrencyGate.release_eq_lower, ConcurrencyGate.lower_lower, Nat.add_comm]
    · rw [lookup_modify_ne hk]
      simp [Ne.symm hk]

/-- The gates that were acquired count one more trigger each, and let it through. -/
theorem acquireGates_spec {ok : Bool} (h : acquireGates count idx gates keys = (acquired, ok, gates')) :
    (∀ k, gates'.lookup k = (gates.lookup k).map (·.raise (acquired.count k))) ∧
      (∀ k ∈ acquired, ∃ g, gates'.lookup k = some g ∧ g.current ≤ localLimitFromGlobal g.globalLimit count idx) ∧
      (ok = true → acquired = keys) ∧
      (ok = false → ∃ k rest, keys = acquired ++ k :: rest ∧
        ∀ g, gates'.lookup k = some g → localLimitFromGlobal g.globalLimit count idx ≤ g.current) := by
  induction keys generalizing gates acquired with
  | nil =>
    obtain ⟨rfl, rfl, rfl⟩ : acquired = [] ∧ ok = true ∧ gates' = gates := by
      simpa [acquireGates, eq_comm] using h
    simp
  | cons key keys ih =>
    unfold acquireGates at h
    split at h
    · next hfail =>
      obtain ⟨rfl, rfl, rfl⟩ : acquired = [] ∧ ok = false ∧ gates' = gates := by simpa [eq_comm] using h
      refine ⟨by simp, by simp, by simp, fun _ => ⟨key, keys, rfl, fun g hg => ?_⟩⟩
      rw [hg] at hfail
      simp only [Option.bind_some, ConcurrencyGate.tryAcquire] at hfail
      split at hfail
      · cases hfail
      · omega
    · next gate hgate =>
      obtain ⟨g, hg, hacq⟩ := Option.bind_eq_some_iff.1 hgate
      have hraised : gate = g.raise 1 ∧ g.current < localLimitFromGlobal g.globalLimit count idx := by
        unfold ConcurrencyGate.tryAcquire at hacq
        split at hacq
        · next hlt => exact ⟨(Option.some.inj hacq).symm, hlt⟩
        · cases hacq
      obtain ⟨rfl, hlt⟩ := hraised
      cases hrest : acquireGates count idx (gates.insert key (g.raise 1)) keys with
      | mk acquired' rest =>
        obtain ⟨ok', gates''⟩ := rest
        rw [hrest] at h
        obtain ⟨rfl, rfl, rfl⟩ : acquired = key :: acquired' ∧ ok = ok' ∧ gates' = gates'' := by
          simpa [eq_comm] using h
        obtain ⟨hlookup, hle, hall, hfull⟩ := ih hrest
        refine ⟨?_, ?_, ?_, ?_⟩
        · intro k
          rw [hlookup k]
          by_cases hk : k = key
          · subst hk
            simp [hg, ConcurrencyGate.raise_raise, Nat.add_comm]
          · simp [AList.lookup_insert_ne hk, Ne.symm hk]
        · intro k hk
          rcases List.mem_cons.1 hk with rfl | hk
          · by_cases hmem : k ∈ acquired'
            · exact hle k hmem
            · refine ⟨g.raise 1, ?_, hlt⟩
              rw [hlookup k, AList.lookup_insert, List.count_eq_zero_of_not_mem hmem]
              rfl
          · exact hle k hk
        · intro hok
          rw [hall hok]
        · intro hok
          obtain ⟨k, rest, hkeys, hfull⟩ := hfull hok
          exact ⟨k, rest, by rw [hkeys, List.cons_append], hfull⟩

end Keys

end Dapr.JobPool
