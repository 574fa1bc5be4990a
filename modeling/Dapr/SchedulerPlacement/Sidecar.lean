import Dapr.Lib.Delivery
import Dapr.SchedulerPlacement.Store
/-!
# The sidecar's end of a placement stream

A sidecar handles placement orders in the order they come and acknowledges each. A LOCK opens
a round and blocks the types in its scope, an UPDATE merges tables, an UNLOCK closes the round
and unblocks what it blocked. Every session starts from an empty state.
-/

namespace Dapr.SchedulerPlacement

open Lib.Delivery Function List

inductive Operation where
  | lock
  | update
  | unlock
  deriving DecidableEq, Repr

structure Order where
  op : Operation
  seq : Nat
  scope : List String
  versions : List (String × Nat)
  tables : PlacementTables

structure Ack where
  op : Operation
  seq : Nat
  deriving DecidableEq, Repr

namespace Order

def lock (seq : Nat) (types : List String) : Order := ⟨.lock, seq, types, [], ⟨.unknown, []⟩⟩

def update (seq : Nat) (types : List String) (versions : List (String × Nat)) (tables : PlacementTables) : Order :=
  ⟨.update, seq, types, versions, tables⟩

def unlock (seq : Nat) (types : List String) : Order := ⟨.unlock, seq, types, [], ⟨.unknown, []⟩⟩

/-- The order blocks the type or brings a table for it. -/
def Concerns (o : Order) (t : String) : Prop :=
  o.op = .lock ∧ t ∈ o.scope ∨ o.op = .update ∧ t ∈ o.tables.entries.map Prod.fst

end Order

/-! ## Tables and blocked types -/

/-- The tables that the sidecar has, and the types it blocks. -/
structure Inflight where
  blockedTypes : List String
  v2Entries : String → Option Table
  versionByType : String → Option Nat

namespace Inflight

def new : Inflight := ⟨[], fun _ => none, fun _ => none⟩

def lockTypes (i : Inflight) (types : List String) : Inflight :=
  { i with blockedTypes := types ∪ i.blockedTypes }

def unlockTypes (i : Inflight) (types : List String) : Inflight :=
  { i with blockedTypes := i.blockedTypes.filter fun t => t ∉ types }

/-- Note the version of a type's table; it must not fall within a session. -/
def noteVersion (i : Inflight) (versions : List (String × Nat)) (actorType : String) : Except String Inflight :=
  match versions.lookup actorType with
  | none => .ok i
  | some version =>
    match i.versionByType actorType with
    | some current =>
      if version < current then
        .error s!"placement table version regression for actor type {actorType}: {version} < {current}"
      else .ok { i with versionByType := update i.versionByType actorType (some version) }
    | none => .ok { i with versionByType := update i.versionByType actorType (some version) }

def sameHosts (a b : Table) : Bool :=
  a.entries.length = b.entries.length ∧ a.entries.all fun e => b.lookup e.1 = some e.2

/-- Replace the table of a type, or remove it if there are no hosts; and whether that changed it. -/
def install (i : Inflight) (actorType : String) (table : Table) : Inflight × Bool :=
  if table.entries = [] then
    ({ i with v2Entries := update i.v2Entries actorType none }, (i.v2Entries actorType).isSome)
  else
    ({ i with v2Entries := update i.v2Entries actorType (some table) },
      match i.v2Entries actorType with
      | none => true
      | some existing => !sameHosts existing table)

def mergeEntries (versions : List (String × Nat)) (i : Inflight) :
    List (String × Table) → Inflight × Except String (List String)
  | [] => (i, .ok [])
  | (actorType, table) :: rest =>
    match i.noteVersion versions actorType with
    | .error err => (i, .error err)
    | .ok i =>
      let (i, isChanged) := i.install actorType table
      let (i, changed) := mergeEntries versions i rest
      (i, changed.map fun types => if isChanged then actorType :: types else types)

/-- Install partial tables. Entries that were merged before an error stay. -/
def merge (i : Inflight) (tables : PlacementTables) (versions : List (String × Nat)) :
    Inflight × Except String (List String) :=
  if tables.entries = [] then (i, .ok [])
  else match tables.hashAlgorithm with
    | .unknown => (i, .error "unsupported placement hash algorithm: HASH_ALGORITHM_UNKNOWN")
    | .rendezvous => mergeEntries versions i tables.entries

/-- The table a type has once the given one was merged: none if it has no hosts. -/
def installed (table : Table) : Option Table := if table.entries = [] then none else some table

theorem noteVersion_ok {i i' : Inflight} {versions : List (String × Nat)} {actorType : String}
    (h : i.noteVersion versions actorType = .ok i') :
    i'.blockedTypes = i.blockedTypes ∧ i'.v2Entries = i.v2Entries := by
  unfold noteVersion at h
  split at h
  · rw [← Except.ok.inj h]
    exact ⟨rfl, rfl⟩
  · split at h
    · split at h
      · cases h
      · rw [← Except.ok.inj h]
        exact ⟨rfl, rfl⟩
    · rw [← Except.ok.inj h]
      exact ⟨rfl, rfl⟩

theorem install_entries (i : Inflight) (actorType : String) (table : Table) :
    (i.install actorType table).1.v2Entries = update i.v2Entries actorType (installed table) := by
  unfold install installed
  split <;> rfl

theorem install_blockedTypes (i : Inflight) (actorType : String) (table : Table) :
    (i.install actorType table).1.blockedTypes = i.blockedTypes := by
  unfold install
  split <;> rfl

/-- What merging tables does: nothing is blocked or unblocked, types without an entry keep
their table, and unless there is an error the others get the new one. -/
structure Merged (i i' : Inflight) (entries : List (String × Table)) (result : Except String (List String)) :
    Prop where
  blockedTypes : i'.blockedTypes = i.blockedTypes
  kept : ∀ t, t ∉ entries.map Prod.fst → i'.v2Entries t = i.v2Entries t
  changed : ∀ types, result = .ok types → ∀ t ∈ types, t ∈ entries.map Prod.fst
  new : ∀ types, result = .ok types → ∀ f : String → Table, (∀ e ∈ entries, e.2 = f e.1) →
    ∀ t ∈ entries.map Prod.fst, i'.v2Entries t = installed (f t)

theorem Merged.refused (i : Inflight) (entries : List (String × Table)) (err : String) :
    Merged i i entries (.error err) := by
  refine ⟨rfl, fun t _ => rfl, ?_, ?_⟩ <;> simp

theorem merged_mergeEntries (versions : List (String × Nat)) (i : Inflight) (entries : List (String × Table)) :
    Merged i (mergeEntries versions i entries).1 entries (mergeEntries versions i entries).2 := by
  induction entries generalizing i with
  | nil =>
    refine ⟨rfl, fun t _ => rfl, ?_, fun _ _ _ _ t ht => nomatch ht⟩
    intro types h t ht
    rw [← Except.ok.inj h] at ht
    exact ht
  | cons e rest ih =>
    obtain ⟨actorType, table⟩ := e
    unfold mergeEntries
    cases hv : i.noteVersion versions actorType with
    | error err => exact .refused i _ err
    | ok i₁ =>
      obtain ⟨hb, he⟩ := noteVersion_ok hv
      have hrest := ih (i₁.install actorType table).1
      have hok : ∀ types, ((mergeEntries versions (i₁.install actorType table).1 rest).2.map fun types =>
          if (i₁.install actorType table).2 then actorType :: types else types) = .ok types →
          ∃ types', (mergeEntries versions (i₁.install actorType table).1 rest).2 = .ok types' ∧
            ∀ t ∈ types, t = actorType ∨ t ∈ types' := by
        intro types h
        cases hr : (mergeEntries versions (i₁.install actorType table).1 rest).2 with
        | error err => rw [hr] at h; cases h
        | ok types' =>
          rw [hr] at h
          refine ⟨types', rfl, fun t ht => ?_⟩
          rw [← Except.ok.inj h] at ht
          split at ht
          · exact mem_cons.1 ht
          · exact .inr ht
      refine ⟨?_, ?_, ?_, ?_⟩
      · exact hrest.blockedTypes.trans ((install_blockedTypes _ _ _).trans hb)
      · intro t ht
        rw [map_cons, mem_cons, not_or] at ht
        rw [hrest.kept t ht.2, install_entries, he, update_of_ne ht.1]
      · intro types h t ht
        obtain ⟨types', hr, hsub⟩ := hok types h
        rcases hsub t ht with rfl | ht'
        · exact mem_cons_self
        · exact mem_cons_of_mem _ (hrest.changed types' hr t ht')
      · intro types h f hf t ht
        obtain ⟨types', hr, -⟩ := hok types h
        have hf' : ∀ e ∈ rest, e.2 = f e.1 := fun e he => hf e (mem_cons_of_mem _ he)
        by_cases hin : t ∈ rest.map Prod.fst
        · exact hrest.new types' hr f hf' t hin
        · have heq : t = actorType := (mem_cons.1 ht).resolve_right hin
          subst heq
          have htable : table = f t := hf (t, table) mem_cons_self
          rw [hrest.kept t hin, install_entries, update_self, htable]

theorem merged_merge (i : Inflight) (tables : PlacementTables) (versions : List (String × Nat)) :
    Merged i (i.merge tables versions).1 tables.entries (i.merge tables versions).2 := by
  unfold merge
  split
  · rename_i hnil
    rw [hnil]
    exact merged_mergeEntries versions i []
  · split
    · exact .refused i _ _
    · exact merged_mergeEntries versions i tables.entries

end Inflight

/-! ## Orders -/

/-- A round that the sidecar takes part in. -/
structure V2Round where
  scope : List String
  changed : List String

structure Disseminator where
  v2Rounds : Nat → Option V2Round
  v2Completed : List Nat
  inflight : Inflight
  /-- Why the sidecar closed the stream. -/
  closed : Option String

namespace Disseminator

def new : Disseminator := ⟨fun _ => none, [], .new, none⟩

def closeStreamV2 (d : Disseminator) (err : String) : Disseminator := { d with closed := some err }

/-- What is done with an order while the stream is open. -/
def handleOpen (d : Disseminator) (order : Order) : Disseminator × Option Ack :=
  match order.op with
  | .lock =>
    let d := { d with v2Rounds := update d.v2Rounds order.seq (some ⟨order.scope, []⟩) }
    ({ d with inflight := if order.scope = [] then d.inflight else d.inflight.lockTypes order.scope },
      some ⟨.lock, order.seq⟩)
  | .update =>
    match d.v2Rounds order.seq with
    | none =>
      if order.seq ∈ d.v2Completed then (d, some ⟨.update, order.seq⟩)
      else (d.closeStreamV2 s!"received UPDATE for unknown round seq {order.seq}", none)
    | some r =>
      match d.inflight.merge order.tables order.versions with
      | (i, .error err) => ({ d with inflight := i }.closeStreamV2 err, none)
      | (i, .ok changed) =>
        ({ d with v2Rounds := update d.v2Rounds order.seq (some { r with changed := changed ∪ r.changed }),
                  inflight := i.lockTypes changed },
          some ⟨.update, order.seq⟩)
  | .unlock =>
    match d.v2Rounds order.seq with
    | none =>
      if order.seq ∈ d.v2Completed then (d, some ⟨.unlock, order.seq⟩)
      else (d.closeStreamV2 s!"received UNLOCK for unknown round seq {order.seq}", none)
    | some r =>
      let toUnlock := (r.scope.filter fun t => t ∉ r.changed) ++ r.changed
      ({ d with v2Rounds := update d.v2Rounds order.seq none,
                v2Completed := order.seq :: d.v2Completed,
                inflight := d.inflight.unlockTypes toUnlock },
        some ⟨.unlock, order.seq⟩)

def handleOrderV2 (d : Disseminator) (order : Order) : Disseminator × Option Ack :=
  if d.closed.isSome then (d, none) else d.handleOpen order

/-- What an order does to a sidecar. -/
inductive Handled (d : Disseminator) (o : Order) : Disseminator → Prop where
  /-- The stream was closed or is now. -/
  | closed {d'} (h : d'.closed.isSome) (hr : d'.v2Rounds = d.v2Rounds) (hc : d'.v2Completed = d.v2Completed) :
      Handled d o d'
  /-- An order of a completed round is only acknowledged. -/
  | again (hop : o.op ≠ .lock) (hc : o.seq ∈ d.v2Completed) : Handled d o d
  | lock {i} (hop : o.op = .lock) (he : i.v2Entries = d.inflight.v2Entries)
      (hb : ∀ t, t ∈ i.blockedTypes ↔ t ∈ o.scope ∨ t ∈ d.inflight.blockedTypes) :
      Handled d o { d with v2Rounds := update d.v2Rounds o.seq (some ⟨o.scope, []⟩), inflight := i }
  | update {r i changed} (hop : o.op = .update) (hr : d.v2Rounds o.seq = some r)
      (hm : d.inflight.Merged i o.tables.entries (.ok changed)) :
      Handled d o { d with
        v2Rounds := update d.v2Rounds o.seq (some { r with changed := changed ∪ r.changed })
        inflight := i.lockTypes changed }
  | unlock {r i} (hop : o.op = .unlock) (hr : d.v2Rounds o.seq = some r) (he : i.v2Entries = d.inflight.v2Entries)
      (hb : ∀ t, t ∈ i.blockedTypes ↔ t ∈ d.inflight.blockedTypes ∧ t ∉ r.scope ∧ t ∉ r.changed) :
      Handled d o { d with
        v2Rounds := update d.v2Rounds o.seq none
        v2Completed := o.seq :: d.v2Completed
        inflight := i }

theorem handled (d : Disseminator) (o : Order) : Handled d o (d.handleOrderV2 o).1 := by
  unfold handleOrderV2
  split
  · rename_i hclosed
    exact .closed hclosed rfl rfl
  · unfold handleOpen
    cases hop : o.op with
    | lock =>
      refine .lock hop ?_ ?_
      · split <;> rfl
      · intro t
        split
        · simp [*]
        · simp [Inflight.lockTypes]
    | update =>
      cases hr : d.v2Rounds o.seq with
      | none =>
        dsimp only
        split
        · exact .again (by simp [hop]) ‹_›
        · exact .closed rfl rfl rfl
      | some r =>
        have hm := d.inflight.merged_merge o.tables o.versions
        dsimp only
        split
        · exact .closed rfl rfl rfl
        · rename_i i changed heq
          rw [heq] at hm
          exact .update hop hr hm
    | unlock =>
      cases hr : d.v2Rounds o.seq with
      | none =>
        dsimp only
        split
        · exact .again (by simp [hop]) ‹_›
        · exact .closed rfl rfl rfl
      | some r =>
        refine .unlock hop hr rfl fun t => ?_
        simp only [Inflight.unlockTypes, mem_filter, mem_append, decide_eq_true_eq]
        tauto

/-- A sidecar acknowledges the order it handled. -/
theorem handleOrderV2_ack {d : Disseminator} {o : Order} {a : Ack} (h : (d.handleOrderV2 o).2 = some a) :
    a = ⟨o.op, o.seq⟩ := by
  unfold handleOrderV2 handleOpen at h
  split at h
  · cases h
  · cases hop : o.op <;> simp only [hop] at h
    · exact (Option.some.inj h).symm
    · split at h
      · split at h <;> simp_all
      · split at h <;> simp_all
    · split at h
      · split at h <;> simp_all
      · simp_all

/-! ## What orders leave alone -/

variable {d d' : Disseminator} {o : Order} {t : String} {log : List Order}

theorem Handled.entries_eq (h : Handled d o d') (ht : o.op = .update → t ∉ o.tables.entries.map Prod.fst) :
    d'.closed.isSome ∨ d'.inflight.v2Entries t = d.inflight.v2Entries t := by
  cases h with
  | closed h => exact .inl h
  | again => exact .inr rfl
  | update hop _ hm => exact .inr (hm.kept t (ht hop))
  | lock _ he | unlock _ _ he => exact .inr (congrFun he t)

theorem Handled.still_blocked (h : Handled d o d') (hop : o.op ≠ .unlock) (ht : t ∈ d.inflight.blockedTypes) :
    d'.closed.isSome ∨ t ∈ d'.inflight.blockedTypes := by
  cases h with
  | closed h => exact .inl h
  | again => exact .inr ht
  | lock _ _ hb => exact .inr ((hb t).2 (.inr ht))
  | update _ _ hm => exact .inr (mem_union_iff.2 (.inr (hm.blockedTypes ▸ ht)))
  | unlock hop' => exact absurd hop' hop

theorem Handled.lock_blocks (h : Handled d o d') (hop : o.op = .lock) (ht : t ∈ o.scope) :
    d'.closed.isSome ∨ t ∈ d'.inflight.blockedTypes := by
  cases h with
  | closed h => exact .inl h
  | again hne => exact absurd hop hne
  | lock _ _ hb => exact .inr ((hb t).2 (.inl ht))
  | update hop' | unlock hop' => simp [hop] at hop'

theorem Handled.update_installs (h : Handled d o d') (hop : o.op = .update) (hnew : o.seq ∉ d.v2Completed)
    {f : String → Table} (hf : ∀ e ∈ o.tables.entries, e.2 = f e.1) (ht : t ∈ o.tables.entries.map Prod.fst) :
    d'.closed.isSome ∨ d'.inflight.v2Entries t = Inflight.installed (f t) := by
  cases h with
  | closed h => exact .inl h
  | again _ hc => exact absurd hc hnew
  | update _ _ hm => exact .inr (hm.new _ rfl f hf t ht)
  | lock hop' | unlock hop' => simp [hop] at hop'

/-! ## Rounds and the orders they came from -/

/-- What a sidecar knows of rounds it learned from the orders of a log. -/
structure Traced (log : List Order) (d : Disseminator) : Prop where
  completed : ∀ seq ∈ d.v2Completed, ∃ o ∈ log, o.op = .unlock ∧ o.seq = seq
  rounds : ∀ seq r, d.v2Rounds seq = some r → ∀ t, t ∈ r.scope ∨ t ∈ r.changed →
    ∃ o ∈ log, o.seq = seq ∧ o.Concerns t

theorem Traced.handle (h : Traced log d) (ho : o ∈ log) (hh : Handled d o d') : Traced log d' := by
  -- the round with the order's number is the only one that changes
  have hupdate : ∀ r', (∀ t, t ∈ r'.scope ∨ t ∈ r'.changed → ∃ o' ∈ log, o'.seq = o.seq ∧ o'.Concerns t) →
      ∀ seq r, update d.v2Rounds o.seq (some r') seq = some r → ∀ t, t ∈ r.scope ∨ t ∈ r.changed →
        ∃ o ∈ log, o.seq = seq ∧ o.Concerns t := by
    intro r' hr' seq r hr t ht
    by_cases hseq : seq = o.seq
    · subst hseq
      rw [update_self, Option.some_inj] at hr
      exact hr' t (hr ▸ ht)
    · rw [update_of_ne hseq] at hr
      exact h.rounds seq r hr t ht
  cases hh with
  | closed _ hr hc => exact ⟨hc ▸ h.completed, hr ▸ h.rounds⟩
  | again => exact h
  | lock hop =>
    refine ⟨h.completed, hupdate _ fun t ht => ⟨o, ho, rfl, .inl ⟨hop, ?_⟩⟩⟩
    simpa using ht
  | @update r i changed hop hr hm =>
    refine ⟨h.completed, hupdate _ fun t ht => ?_⟩
    rcases ht with hs | hc
    · exact h.rounds _ r hr t (.inl hs)
    · rcases mem_union_iff.1 hc with hnew | hold
      · exact ⟨o, ho, rfl, .inr ⟨hop, hm.changed _ rfl t hnew⟩⟩
      · exact h.rounds _ r hr t (.inr hold)
  | unlock hop =>
    refine ⟨forall_mem_cons.2 ⟨⟨o, ho, hop, rfl⟩, h.completed⟩, fun seq r hr t ht => ?_⟩
    dsimp only at hr
    by_cases hseq : seq = o.seq
    · rw [hseq, update_self] at hr
      cases hr
    · rw [update_of_ne hseq] at hr
      exact h.rounds seq r hr t ht

/-- An order that is not about a type leaves it blocked or unblocked as it is. -/
theorem Handled.blocked_iff (h : Handled d o d') (htr : Traced log d) (ht : ¬ o.Concerns t)
    (hun : o.op = .unlock → ∀ o' ∈ log, o'.seq = o.seq → ¬ o'.Concerns t) :
    d'.closed.isSome ∨ (t ∈ d'.inflight.blockedTypes ↔ t ∈ d.inflight.blockedTypes) := by
  cases h with
  | closed h => exact .inl h
  | again => exact .inr Iff.rfl
  | lock hop _ hb =>
    have hscope : t ∉ o.scope := fun hin => ht (.inl ⟨hop, hin⟩)
    exact .inr (by simp [hb, hscope])
  | @update r i changed hop hr hm =>
    have hnot : t ∉ changed := fun hin => ht (.inr ⟨hop, hm.changed _ rfl t hin⟩)
    exact .inr (by simp [Inflight.lockTypes, hnot, hm.blockedTypes])
  | @unlock r i hop hr he hb =>
    have hnot : ¬ (t ∈ r.scope ∨ t ∈ r.changed) := by
      intro hin
      obtain ⟨o', ho', hseq, hc⟩ := htr.rounds _ r hr t hin
      exact hun hop o' ho' hseq hc
    rw [not_or] at hnot
    exact .inr (by simp [hb, hnot])

end Disseminator

/-- The sidecar at the end of a stream. -/
def sidecar : Receiver Disseminator Order := ⟨.new, fun d o => (d.handleOrderV2 o).1⟩

theorem sidecar_handled (d : Disseminator) (o : Order) : d.Handled o (sidecar.handle d o) := d.handled o

theorem sidecar_traced (log : List Order) (k : Nat) : Disseminator.Traced log (sidecar.after log k) := by
  refine sidecar.after_induction (Disseminator.Traced log) ?_ ?_ k
  · constructor
    · intro seq h
      cases h
    · intro seq r h
      cases h
  · exact fun d o ho h => h.handle ho (sidecar_handled d o)

end Dapr.SchedulerPlacement
