import Dapr.Lib.Delivery
import Dapr.Placement.Store
/-!
# The sidecar's end of a placement service stream

A LOCK announces a new table and blocks nothing; an UPDATE replaces all tables and blocks the
types whose table changed; an UNLOCK unblocks the types of every UPDATE since the last one.
-/

namespace Dapr.Placement

open Lib.Delivery Lib.Tables

inductive OrderOp where
  | lock
  | update
  | unlock
  deriving DecidableEq, Repr

/-- What a stream is sent. -/
structure Order where
  op : OrderOp
  version : Nat
  tables : AList fun _ : String => Table

structure Ack where
  op : OrderOp
  version : Nat
  deriving DecidableEq, Repr

namespace Order

def lock (version : Nat) : Order := ⟨.lock, version, ∅⟩

def update (version : Nat) (tables : AList fun _ : String => Table) : Order := ⟨.update, version, tables⟩

def unlock (version : Nat) : Order := ⟨.unlock, version, ∅⟩

end Order

/-- Whether two hash rings are built from the same hosts. -/
def Table.equal (a b : Table) : Bool :=
  a.entries.length = b.entries.length ∧ a.entries.all fun e => b.lookup e.1 = some e.2

theorem Table.same_of_equal {a b : Table} (h : a.equal b = true) : Same a b := by
  simp only [Table.equal, decide_eq_true_eq, List.all_eq_true] at h
  exact same_of_subset h.1 h.2

/-- What a sidecar makes of its orders. -/
structure Sidecar where
  currentOperation : OrderOp
  currentVersion : Nat
  roundChangedTypes : List String
  blockedTypes : List String
  entries : AList fun _ : String => Table
  /-- Why the sidecar closed the stream. -/
  closed : Option String

namespace Sidecar

def new : Sidecar := ⟨.lock, 0, [], [], ∅, none⟩

/-- The types whose table differs between two sets of tables. -/
def changedTypes (old new : AList fun _ : String => Table) : List String :=
  (new.keys.filter fun t => match old.lookup t, new.lookup t with
    | some a, some b => !a.equal b
    | _, _ => true) ++ old.keys.filter fun t => (new.lookup t).isNone

/-- What is done with an order while the stream is open. -/
def handleOpen (s : Sidecar) (order : Order) : Sidecar × Option Ack :=
  match order.op with
  | .lock => ({ s with currentOperation := .lock, currentVersion := order.version }, some ⟨.lock, order.version⟩)
  | .update =>
    if order.version < s.currentVersion then
      ({ s with closed := some s!"version mismatch: expected {s.currentVersion}, got {order.version}" }, none)
    else
      let changed := changedTypes s.entries order.tables
      ({ s with entries := order.tables, roundChangedTypes := changed ∪ s.roundChangedTypes,
                blockedTypes := changed ∪ s.blockedTypes, currentOperation := .update },
        some ⟨.update, s.currentVersion⟩)
  | .unlock =>
    if s.currentOperation ≠ .update then (s, none)
    else if order.version < s.currentVersion then (s, none)
    else
      ({ s with currentVersion := order.version, currentOperation := .unlock, roundChangedTypes := [],
                blockedTypes := s.blockedTypes.filter fun t => t ∉ s.roundChangedTypes },
        some ⟨.unlock, order.version⟩)

def handleOrder (s : Sidecar) (order : Order) : Sidecar × Option Ack :=
  if s.closed.isSome then (s, none) else s.handleOpen order

/-- An ack names the operation of the order, and a version no later than the order's. -/
theorem handleOrder_ack {s : Sidecar} {o : Order} {a : Ack} (h : (s.handleOrder o).2 = some a) :
    a.op = o.op ∧ a.version ≤ o.version := by
  unfold handleOrder handleOpen at h
  split at h
  · cases h
  · cases hop : o.op <;> simp only [hop] at h
    · rw [← Option.some.inj h]
      exact ⟨rfl, le_rfl⟩
    · split at h
      · cases h
      · rename_i hle
        rw [← Option.some.inj h]
        exact ⟨rfl, Nat.le_of_not_lt hle⟩
    · split at h
      · cases h
      · split at h
        · cases h
        · rw [← Option.some.inj h]
          exact ⟨rfl, le_rfl⟩

/-! ## What is known of a type -/

variable {s : Sidecar} {o : Order} {t : String} {T : Table}

/-- If the sidecar has a table for the type, it is the given one. -/
def Holds (t : String) (T : Table) (s : Sidecar) : Prop :=
  s.closed.isSome ∨ ∀ table, s.entries.lookup t = some table → Same table T

/-- The same, unless the type is blocked. -/
def Safe (t : String) (T : Table) (s : Sidecar) : Prop :=
  s.closed.isSome ∨ t ∈ s.blockedTypes ∨ ∀ table, s.entries.lookup t = some table → Same table T

theorem Holds.safe (h : s.Holds t T) : s.Safe t T := h.imp_right .inr

/-- Only an UPDATE changes tables. -/
theorem Holds.kept (h : s.Holds t T) (hop : o.op ≠ .update) : (s.handleOrder o).1.Holds t T := by
  unfold handleOrder handleOpen
  split
  · exact h
  · cases ho : o.op with
    | lock => exact h
    | update => exact absurd ho hop
    | unlock =>
      dsimp only
      split
      · exact h
      · split <;> exact h

theorem holds_update (hop : o.op = .update) (hT : ∀ table, o.tables.lookup t = some table → Same table T) :
    (s.handleOrder o).1.Holds t T := by
  unfold handleOrder handleOpen
  split
  · rename_i hc
    exact .inl hc
  · simp only [hop]
    split
    · exact .inl rfl
    · exact .inr hT

theorem mem_changedTypes {old new : AList fun _ : String => Table} {a : Table} (hnew : new.lookup t = some a)
    (hdiff : ∀ b, old.lookup t = some b → b.equal a = false) : t ∈ changedTypes old new := by
  refine List.mem_append_left _ (List.mem_filter.2 ⟨?_, ?_⟩)
  · exact AList.lookup_isSome.1 (by simp [hnew])
  · cases hold : old.lookup t with
    | none => simp
    | some b => simp [hnew, hdiff b hold]

/-- A LOCK or an UPDATE never leaves a type unblocked with another table. -/
theorem Safe.kept (h : s.Safe t T) (hop : o.op ≠ .unlock) : (s.handleOrder o).1.Safe t T := by
  unfold handleOrder handleOpen
  split
  · exact h
  · rename_i hopen
    cases ho : o.op with
    | lock => exact h
    | unlock => exact absurd ho hop
    | update =>
      dsimp only
      split
      · exact .inl rfl
      · refine .inr ?_
        rcases h.resolve_left hopen with hb | hT
        · exact .inl (List.mem_union_iff.2 (.inr hb))
        · -- the table is the old one, or the type is among the changed ones
          by_cases hch : t ∈ changedTypes s.entries o.tables
          · exact .inl (List.mem_union_iff.2 (.inl hch))
          · refine .inr fun table htable => ?_
            by_contra hne
            refine hch (mem_changedTypes htable fun b hb => ?_)
            by_contra heq
            rw [Bool.not_eq_false] at heq
            exact hne ((Table.same_of_equal heq).symm.trans (hT b hb))

end Sidecar

/-- The sidecar at the end of a stream. -/
def sidecar : Receiver Sidecar Order := ⟨.new, fun s o => (s.handleOrder o).1⟩

end Dapr.Placement
