import Dapr.SchedulerPlacement.Connections
/-!
# What the controller knows of a sidecar

Behind every type there is one table that sidecars may route by. A round replaces it: from
LOCK to UPDATE its members hold the old one, and once all have acknowledged the LOCK they are
blocked until they hold the new one. What the controller can rely on is a statement about
every state a sidecar is still to go through, and acks are what moves a round from one such
statement to the next.
-/

namespace Dapr.SchedulerPlacement

open Lib.Delivery

/-! ## What is known of a sidecar -/

theorem Inflight.eq_of_installed {table table' : Table} (h : installed table = some table') : table' = table := by
  unfold installed at h
  split at h
  · cases h
  · exact (Option.some.inj h).symm

namespace Disseminator
variable {d d' : Disseminator} {o : Order} {t : String} {T : Table} {log : List Order}

/-- If the sidecar has a table for the type, it is the given one. -/
def Holds (t : String) (T : Table) (d : Disseminator) : Prop :=
  d.closed.isSome ∨ ∀ table, d.inflight.v2Entries t = some table → table.Same T

/-- Lookups of the type wait, or none is left. -/
def Blocks (t : String) (d : Disseminator) : Prop := d.closed.isSome ∨ t ∈ d.inflight.blockedTypes

/-- There is no table for the type, or no sidecar that looks. -/
def Lacks (t : String) (d : Disseminator) : Prop := d.closed.isSome ∨ d.inflight.v2Entries t = none

theorem Lacks.holds (h : d.Lacks t) : d.Holds t T := by
  refine h.imp_right fun hnone table hsome => ?_
  rw [hnone] at hsome
  cases hsome

theorem Handled.stays_closed (h : Handled d o d') (hc : d.closed.isSome) : d'.closed.isSome := by
  cases h with
  | closed h => exact h
  | again | lock | update | unlock => exact hc

theorem Holds.kept (hd : d.Holds t T) (h : Handled d o d')
    (ht : o.op = .update → t ∉ o.tables.entries.map Prod.fst) : d'.Holds t T := by
  rcases hd with hc | hold
  · exact .inl (h.stays_closed hc)
  · refine (h.entries_eq ht).imp_right fun heq => ?_
    rwa [heq]

theorem Lacks.kept (hd : d.Lacks t) (h : Handled d o d')
    (ht : o.op = .update → t ∉ o.tables.entries.map Prod.fst) : d'.Lacks t := by
  rcases hd with hc | hold
  · exact .inl (h.stays_closed hc)
  · exact (h.entries_eq ht).imp_right fun heq => heq.trans hold

/-- Until an UNLOCK a blocked type stays blocked. -/
theorem Blocks.kept_of_ne (hd : d.Blocks t) (h : Handled d o d') (hop : o.op ≠ .unlock) : d'.Blocks t := by
  rcases hd with hc | hold
  · exact .inl (h.stays_closed hc)
  · exact h.still_blocked hop hold

theorem Holds.updated (hd : d.Holds t T) (h : Handled d o d') {f : String → Table}
    (hf : ∀ e ∈ o.tables.entries, e.2 = f e.1) (ht : t ∈ o.tables.entries.map Prod.fst → (f t).Same T) :
    d'.Holds t T := by
  by_cases hc : o.op = .update ∧ t ∈ o.tables.entries.map Prod.fst
  · cases h with
    | closed h => exact .inl h
    | again => exact hd
    | update _ _ hm =>
      refine .inr fun table hsome => ?_
      rw [Inflight.eq_of_installed ((hm.new _ rfl f hf t hc.2).symm.trans hsome)]
      exact ht hc.2
    | lock hop | unlock hop => simp [hop] at hc
  · exact hd.kept h fun hop hin => hc ⟨hop, hin⟩

end Disseminator

/-- The order does not concern the type, nor does the round it closes. -/
structure Order.Ignores (o : Order) (log : List Order) (t : String) : Prop where
  concerns : ¬ o.Concerns t
  unlocks : o.op = .unlock → ∀ o' ∈ log, o'.seq = o.seq → ¬ o'.Concerns t

variable {o : Order} {log : List Order} {t : String} {phase : Operation}

theorem Order.Ignores.not_entry (h : o.Ignores log t) (hop : o.op = .update) : t ∉ o.tables.entries.map Prod.fst :=
  fun hin => h.concerns (.inr ⟨hop, hin⟩)

theorem Disseminator.Blocks.kept {d d' : Disseminator} (hd : d.Blocks t) (h : Handled d o d') (htr : Traced log d)
    (hi : o.Ignores log t) : d'.Blocks t := by
  rcases hd with hc | hold
  · exact .inl (h.stays_closed hc)
  · exact (h.blocked_iff htr hi.concerns hi.unlocks).imp_right fun hiff => hiff.2 hold

/-! ## What is known of a type on a stream -/

/-- What holds of the sidecars of a round all through a phase. -/
def Operation.Before (t : String) (T : Table) : Operation → Disseminator → Prop
  | .lock => Disseminator.Holds t T
  | .update => Disseminator.Blocks t
  | .unlock => Disseminator.Holds t T

/-- What a sidecar meets from the order of the phase on. -/
def Operation.After (t : String) (T : Table) : Operation → Disseminator → Prop
  | .lock => Disseminator.Blocks t
  | .update => Disseminator.Holds t T
  | .unlock => fun _ => True

section Kept
variable {d d' : Disseminator} {T : Table}

theorem Operation.Before.kept (hd : phase.Before t T d) (h : d.Handled o d') (htr : Disseminator.Traced log d)
    (hi : o.Ignores log t) : phase.Before t T d' := by
  cases phase with
  | update => exact Disseminator.Blocks.kept hd h htr hi
  | lock | unlock => exact Disseminator.Holds.kept hd h hi.not_entry

theorem Operation.After.kept (hd : phase.After t T d) (h : d.Handled o d') (htr : Disseminator.Traced log d)
    (hi : o.Ignores log t) : phase.After t T d' := by
  cases phase with
  | lock => exact Disseminator.Blocks.kept hd h htr hi
  | update => exact Disseminator.Holds.kept hd h hi.not_entry
  | unlock => trivial

end Kept

/-- An order of the phase of a round. -/
def Order.IsOf (op : Operation) (seq : Nat) (o : Order) : Prop := o.op = op ∧ o.seq = seq

/-- What is known of a member of a round. -/
structure InRound (T : Table) (t : String) (i seen : Nat) (log : List Order) (r : Round) : Prop where
  before : sidecar.Ahead seen log (r.phase.Before t T)
  since : sidecar.Since (Order.IsOf r.phase r.seq) log (r.phase.After t T)
  acked : i ∈ r.acked → sidecar.Ahead seen log (r.phase.After t T)

/-- What is known of a stream and a type, by the round that holds the type. -/
def Tracks (T : Table) (t : String) (i seen : Nat) (log : List Order) : Option Round → Prop
  | none => sidecar.Ahead seen log (Disseminator.Holds t T)
  | some r =>
    if i ∈ r.members then InRound T t i seen log r
    -- it joined after the round started, and has never had a table for the type
    else sidecar.Ahead seen log (Disseminator.Lacks t)

section Tracks
variable {T : Table} {i seen : Nat} {h : Option Round} {r : Round}

theorem tracks_of_mem (hi : i ∈ r.members) : Tracks T t i seen log (some r) ↔ InRound T t i seen log r := by
  rw [Tracks, if_pos hi]

theorem tracks_of_not_mem (hi : i ∉ r.members) :
    Tracks T t i seen log (some r) ↔ sidecar.Ahead seen log (Disseminator.Lacks t) := by
  rw [Tracks, if_neg hi]

/-- Nothing changes by an order that ignores the type. -/
theorem Tracks.snoc (hT : Tracks T t i seen log h) (hs : seen ≤ log.length) (hi : o.Ignores log t)
    (hseq : ∀ r, h = some r → o.seq ≠ r.seq) : Tracks T t i seen (log ++ [o]) h := by
  have hh := sidecar_handled (sidecar.after log log.length) o
  have htr := sidecar_traced log log.length
  cases h with
  | none => exact Receiver.Ahead.snoc hT hs fun hd => hd.kept hh hi.not_entry
  | some r =>
    by_cases hmem : i ∈ r.members
    · rw [tracks_of_mem hmem] at hT ⊢
      have hkept : r.phase.After t T (sidecar.after log log.length) →
          r.phase.After t T (sidecar.handle (sidecar.after log log.length) o) := fun hd => hd.kept hh htr hi
      exact {
        before := hT.before.snoc hs fun hd => hd.kept hh htr hi
        since := hT.since.snoc (fun hof => hseq r rfl hof.2) hkept
        acked := fun ha => (hT.acked ha).snoc hs hkept }
    · rw [tracks_of_not_mem hmem] at hT ⊢
      exact hT.snoc hs fun hd => hd.kept hh hi.not_entry

theorem Tracks.later {seen' : Nat} (hT : Tracks T t i seen log h) (hle : seen ≤ seen') :
    Tracks T t i seen' log h := by
  cases h with
  | none => exact Receiver.Ahead.later hT hle
  | some r =>
    by_cases hmem : i ∈ r.members
    · rw [tracks_of_mem hmem] at hT ⊢
      exact ⟨hT.before.later hle, hT.since, fun ha => (hT.acked ha).later hle⟩
    · rw [tracks_of_not_mem hmem] at hT ⊢
      exact hT.later hle

theorem Tracks.of_nil (hr : ∀ r, h = some r → i ∉ r.members) : Tracks T t i seen [] h := by
  have hlacks : sidecar.Ahead seen [] (Disseminator.Lacks t) := by
    intro k _ hk
    rw [Nat.le_zero.1 hk]
    exact .inr rfl
  cases h with
  | none => exact hlacks.imp fun d hd => hd.holds
  | some r => exact (tracks_of_not_mem (hr r rfl)).2 hlacks

end Tracks

end Dapr.SchedulerPlacement
