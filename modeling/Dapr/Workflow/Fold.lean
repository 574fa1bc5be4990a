import Mathlib.Data.List.Perm.Basic
import Dapr.Lib.Runs
import Dapr.Workflow.Steps
/-!
# Held completions

A completion that its sender retries may skip the inbox: it is held in memory until a turn
writes it into history, and only then is the sender told. `Held` is the list of such
completions with a log of the ones whose commit channel was closed.
-/

namespace Dapr.Workflow

open List

/-- A held completion. The token stands for the identity of its commit channel. -/
structure FoldEntry where
  token : Nat
  event : HistoryEvent
  /-- The generation of the instance when the completion was submitted. -/
  gen : Nat
  deriving DecidableEq, Repr

inductive FoldError where
  /-- The folding turn did not commit the event; the sender redelivers. -/
  | notCommitted
  /-- The actor was deactivated. -/
  | closed
  deriving DecidableEq, Repr

/-- One closing of a commit channel, with the error the waiting senders read. -/
structure Settlement where
  entry : FoldEntry
  err : Option FoldError
  deriving DecidableEq, Repr

/-- The completions that await a turn, and the answers. -/
structure Held where
  pending : List FoldEntry
  settled : List Settlement
  /-- The token of the next channel. -/
  next : Nat
  deriving DecidableEq, Repr

/-- How many held completions one turn takes. -/
def maxFoldPerTurn : Nat := 128

namespace Held

def empty : Held := ⟨[], [], 0⟩

def settle (h : Held) (entries : List FoldEntry) (err : Option FoldError) : Held :=
  { h with settled := h.settled ++ entries.map fun p => ⟨p, err⟩ }

def foldSubmit (h : Held) (e : HistoryEvent) (generation : Nat) : FoldEntry × Held :=
  let entry := ⟨h.next, e, generation⟩
  (entry, { h with pending := h.pending ++ [entry], next := h.next + 1 })

/-- The held entry that resolves the same step as the event. -/
def foldPendingEntry (h : Held) (e : HistoryEvent) : Option FoldEntry :=
  match resolves e with
  | none => none
  | some k => h.pending.find? fun p => resolves p.event = some k

/-- Take held completions for a turn. Those of another generation are dropped, and their
senders told that all is well: no turn of this generation can consume them. -/
def foldTake (h : Held) (currentGen : Nat) : List FoldEntry × Held :=
  let kept := h.pending.filter fun p => p.gen = currentGen
  let stale := h.pending.filter fun p => !decide (p.gen = currentGen)
  (kept.take maxFoldPerTurn, { h.settle stale none with pending := kept.drop maxFoldPerTurn })

def foldAck (h : Held) (taken : List FoldEntry) : Held := h.settle taken none

def foldNack (h : Held) (taken : List FoldEntry) : Held := h.settle taken (some .notCommitted)

def foldFlush (h : Held) : Held := { h.settle h.pending (some .closed) with pending := [] }

/-! ## Every entry is in one place -/

/-- The entries there ever were: settled, in the hands of a turn, or pending. -/
def entries (h : Held) (taken : List FoldEntry) : List FoldEntry :=
  h.settled.map Settlement.entry ++ (taken ++ h.pending)

/-- No channel belongs to two entries, or to an entry in two places. -/
structure Accounted (h : Held) (taken : List FoldEntry) : Prop where
  nodup : ((h.entries taken).map FoldEntry.token).Nodup
  fresh : ∀ p ∈ h.entries taken, p.token < h.next

variable {h : Held} {taken : List FoldEntry} {p : FoldEntry}

@[simp] theorem entries_settle (h : Held) (es taken : List FoldEntry) (err : Option FoldError) :
    (h.settle es err).entries taken = h.settled.map Settlement.entry ++ es ++ (taken ++ h.pending) := by
  simp [entries, settle, Function.comp_def]

theorem Accounted.perm {h' : Held} {taken' : List FoldEntry} (ha : h.Accounted taken)
    (hp : (h'.entries taken').Perm (h.entries taken)) (hn : h'.next = h.next) : h'.Accounted taken' where
  nodup := (hp.map FoldEntry.token).nodup_iff.2 ha.nodup
  fresh := fun p hmem => hn ▸ ha.fresh p (hp.mem_iff.1 hmem)

theorem accounted_empty : empty.Accounted [] := ⟨by simp [entries, empty], by simp [entries, empty]⟩

theorem Accounted.foldSubmit (ha : h.Accounted taken) (e : HistoryEvent) (g : Nat) :
    (h.foldSubmit e g).2.Accounted taken := by
  have heq : (h.foldSubmit e g).2.entries taken = h.entries taken ++ [(h.foldSubmit e g).1] := by
    simp [entries, Held.foldSubmit]
  constructor
  · rw [heq, map_append]
    exact Lib.Runs.pairwise_concat ha.nodup (forall_mem_map.2 fun p hp => Nat.ne_of_lt (ha.fresh p hp))
  · rw [heq]
    exact Lib.Runs.forall_mem_concat (fun p hp => Nat.lt_succ_of_lt (ha.fresh p hp)) (Nat.lt_succ_self h.next)

theorem Accounted.foldTake (ha : h.Accounted []) (g : Nat) : (h.foldTake g).2.Accounted (h.foldTake g).1 := by
  refine ha.perm ?_ rfl
  have hsplit := filter_append_perm (fun p : FoldEntry => decide (p.gen = g)) h.pending
  have hkept := take_append_drop maxFoldPerTurn (h.pending.filter fun p => decide (p.gen = g))
  simp only [Held.foldTake, entries, settle, map_append, map_map, Function.comp_def, map_id',
    append_assoc, nil_append]
  refine Perm.append_left _ ?_
  rw [hkept]
  exact perm_append_comm.trans hsplit

theorem Accounted.settle (ha : h.Accounted taken) (err : Option FoldError) : (h.settle taken err).Accounted [] := by
  refine ha.perm ?_ rfl
  rw [entries_settle, entries, nil_append, append_assoc]

theorem Accounted.foldFlush (ha : h.Accounted []) : h.foldFlush.Accounted [] := by
  refine ha.perm ?_ rfl
  simp [entries, Held.foldFlush, Held.settle, Function.comp_def]

/-- What a turn takes and what stays pending were pending, in this order. -/
theorem foldTake_sublist (h : Held) (g : Nat) : ((h.foldTake g).1 ++ (h.foldTake g).2.pending).Sublist h.pending := by
  simp only [foldTake, take_append_drop]
  exact filter_sublist

/-- A turn takes completions of its own generation. -/
theorem gen_of_mem_foldTake {g : Nat} (hp : p ∈ (h.foldTake g).1) : p.gen = g := by
  have hkept := (mem_filter.1 (mem_of_mem_take hp)).2
  simpa using hkept

/-- A commit channel is closed at most once. -/
theorem Accounted.closed_once (ha : h.Accounted taken) : (h.settled.map fun x => x.entry.token).Nodup := by
  have hn := ha.nodup
  rw [entries, map_append, map_map] at hn
  exact (nodup_append.1 hn).1

/-- A pending entry is not settled. -/
theorem Accounted.pending_open (ha : h.Accounted taken) (hp : p ∈ h.pending) {x : Settlement} (hx : x ∈ h.settled) :
    x.entry.token ≠ p.token := by
  have hn := ha.nodup
  rw [entries, map_append, nodup_append] at hn
  exact hn.2.2 _ (mem_map_of_mem (mem_map_of_mem hx)) _
    (mem_map_of_mem (mem_append_right _ hp))

end Held

end Dapr.Workflow
