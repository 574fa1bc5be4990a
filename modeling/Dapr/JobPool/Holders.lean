import Dapr.JobPool.Meters
import Dapr.Lib.Runs
/-!
# The counters of the gates

A gate counts the triggers that went through it and have not released it. The count is right as
long as a gate is created only when no trigger still holds an earlier gate of the same key: a
release names the gate by its key, and would be taken for one of the new gate's.
-/

namespace Dapr.JobPool

open Lib.Totals Lib.Runs List

/-- Counts the triggers that went through a gate: on the streams, and in the release events of those
answered. -/
def holdsOf (key : String) : Meter where
  weigh x := x.gateKeys.toList.countP (key ∈ ·.keys)
  ledger _ releases := releases.countP (key ∈ ·.keys)
  ledger_resultFn _ _ _ _ := countP_append

namespace Connections

/-- How many triggers went through a gate of this key and have not released it. -/
def holders (c : Connections) (key : String) : Nat := (holdsOf key).reading c

/-- Each gate counts its holders; the caller holds some gates for a trigger that it is about to dispatch. -/
def Balanced (c : Connections) (held : List String) : Prop :=
  ∀ key g, c.gates.lookup key = some g → g.current = c.holders key + held.count key

/-- What is asked of a move: a gate is created only while no trigger holds an earlier one of its key. -/
def Meets (c : Connections) : Move → Prop
  | .add req => ∀ limit ∈ req.concurrencyLimits.filterMap (·.gate), limit.1 ∈ c.gates ∨ c.holders limit.1 = 0
  | _ => True

variable {c c' : Connections} {keys held acquired : List String} {gates : Gates} {ok : Bool} {pick : Nat → Nat}
  {req : TriggerRequest} {key : String} {gateKeys : GateKeys}

theorem Balanced.acquire (h : c.Balanced held) (hacq : c.acquire keys = (acquired, ok, gates)) :
    Balanced { c with gates := gates } (acquired ++ held) := by
  intro k g hg
  obtain ⟨hlookup, -⟩ := acquireGates_spec hacq
  rw [hlookup k] at hg
  obtain ⟨g₀, hg₀, rfl⟩ := Option.map_eq_some_iff.1 hg
  have := h k g₀ hg₀
  rw [count_append]
  change g₀.current + acquired.count k = c.holders k + _
  omega

theorem Balanced.release (h : c.Balanced (keys ++ held)) :
    Balanced { c with gates := releaseGates c.gates keys } held := by
  intro k g hg
  rw [lookup_releaseGates] at hg
  obtain ⟨g₀, hg₀, rfl⟩ := Option.map_eq_some_iff.1 hg
  have := h k g₀ hg₀
  rw [count_append] at this
  change g₀.current - keys.count k = c.holders k + _
  omega

theorem Balanced.dispatch (h : c.Balanced (gateKeys.keys ++ held)) {i : Nat} {st : Stream}
    (hst : c.streams.lookup i = some st) : (c.dispatchWithGates i req gateKeys).Balanced held := by
  intro k g hg
  have hbalance := h k g hg
  have hreading : (c.dispatchWithGates i req gateKeys).holders k = c.holders k + [gateKeys].countP (k ∈ ·.keys) :=
    Meter.reading_streamEnqueue hst
  rw [count_append, gateKeys.nodup.count] at hbalance
  rw [hreading, countP_singleton]
  simp only [decide_eq_true_eq]
  omega

/-- The counters are right, and no trigger has been let through a gate that was full. -/
structure Counts (c : Connections) : Prop where
  balanced : c.Balanced []
  recorded : ∀ e ∈ c.recorded, 0 < e.current ∧ e.current ≤ e.limit

section
variable (h : c.Counts)
include h

/-- Gates are dropped, or changed without their counters. -/
theorem Counts.withGates (hgates : ∀ key g', gates.lookup key = some g' →
    ∃ g, c.gates.lookup key = some g ∧ g'.current = g.current) : Counts { c with gates := gates } := by
  refine ⟨fun key g' hg' => ?_, h.recorded⟩
  obtain ⟨g, hg, hcurrent⟩ := hgates key g' hg'
  rw [hcurrent]
  exact h.balanced key g hg

theorem Counts.insert {g : ConcurrencyGate} (g' : ConcurrencyGate) (hg : c.gates.lookup key = some g)
    (hcurrent : g'.current = g.current) : Counts { c with gates := c.gates.insert key g' } := by
  refine h.withGates fun k g'' hg'' => ?_
  by_cases hk : k = key
  · subst hk
    rw [AList.lookup_insert] at hg''
    cases hg''
    exact ⟨g, hg, hcurrent⟩
  · rw [AList.lookup_insert_ne hk] at hg''
    exact ⟨g'', hg'', rfl⟩

/-- A trigger is dispatched through gates that have just let it through. -/
theorem Counts.dispatch (hacq : c.acquire gateKeys.keys = (acquired, true, gates)) {i : Nat} {st : Stream}
    (hst : c.streams.lookup i = some st) : ({ c with gates := gates }.dispatchWithGates i req gateKeys).Counts := by
  obtain ⟨hlookup, hle, hall, -⟩ := acquireGates_spec hacq
  obtain rfl := hall rfl
  refine ⟨?_, ?_⟩
  · exact (h.balanced.acquire hacq).dispatch hst
  · intro e he
    rcases mem_append.1 he with he | he
    · exact h.recorded e he
    · obtain ⟨key, hkey, he⟩ := mem_filterMap.1 he
      obtain ⟨g, hg, hg_le⟩ := hle key hkey
      rw [hg] at he
      cases he
      refine ⟨?_, hg_le⟩
      rw [hlookup key] at hg
      obtain ⟨g₀, -, rfl⟩ := Option.map_eq_some_iff.1 hg
      have := count_pos_iff.2 hkey
      show 0 < g₀.current + gateKeys.keys.count key
      omega

/-- Gates that were acquired in vain are released again. -/
theorem Counts.undo (hacq : c.acquire keys = (acquired, ok, gates)) :
    Counts { c with gates := releaseGates gates acquired } :=
  ⟨(h.balanced.acquire hacq).release, h.recorded⟩

theorem counts_tryDispatchPending {attempt : Attempt}
    (hc' : c.tryDispatchPending pick req = (attempt, c')) : c'.Counts := by
  unfold tryDispatchPending at hc'
  split at hc'
  · cases hc'
    exact ⟨h.balanced, h.recorded⟩
  · next i hi =>
    obtain ⟨st, hst, -, -⟩ := getStreamLoop_some hi
    dsimp only at hc'
    split at hc'
    · next hacq =>
      cases hc'
      exact h.dispatch hacq hst
    · next hacq =>
      cases hc'
      exact h.undo hacq

theorem counts_handleTriggerRequest : (c.handleTriggerRequest pick req).Counts := by
  unfold handleTriggerRequest
  split
  · exact ⟨h.balanced, h.recorded⟩
  · next i hi =>
    obtain ⟨st, hst, -, -⟩ := getStreamLoop_some hi
    dsimp only
    split
    · -- it is not counted by any gate
      refine ⟨fun key g hg => ?_, h.recorded⟩
      have hreading : (c.streamEnqueue i ⟨req, none⟩).holders key = c.holders key :=
        Meter.reading_streamEnqueue hst
      rw [hreading]
      exact h.balanced key g hg
    · split
      · next hacq => exact h.dispatch hacq hst
      · next acquired gates hacq =>
        have hundo := h.undo hacq
        split
        · next gate hgate =>
          obtain ⟨g, hg, henqueue⟩ := Option.bind_eq_some_iff.1 hgate
          refine hundo.insert _ hg ?_
          unfold ConcurrencyGate.enqueue at henqueue
          split at henqueue
          · cases henqueue
          · cases henqueue
            rfl
        · exact ⟨hundo.balanced, hundo.recorded⟩

theorem counts_drainPending : (c.drainPending pick key).Counts := by
  obtain ⟨skipped, c', heq, hend⟩ := drainLoop_rule pick key (P := fun _ _ => Counts) (D := fun _ => Counts)
    (fun n skipped c₁ next g rest attempt c₂ h hg hrest hc₂ => by
      have := counts_tryDispatchPending (h.insert { g with pending := rest } hg rfl) hc₂
      cases attempt <;> exact this)
    (((c.gates.lookup key).map (·.pending.length)).getD 0) [] h
  have hcounts : c'.Counts := hend.elim id fun ⟨_, h, _⟩ => h
  rw [drainPending, heq, requeueFront, Lib.Totals.modify]
  split
  · next g hg => exact hcounts.insert _ hg rfl
  · exact hcounts

theorem counts_foldl_drainPending (order : List String) :
    (order.foldl (fun c key => c.drainPending pick key) c).Counts := by
  induction order generalizing c with
  | nil => exact h
  | cons key order ih => exact ih (counts_drainPending h)

theorem counts_release {n : Nat} (hkeys : c.releases[n]? = some gateKeys) :
    ({ c with releases := c.releases.eraseIdx n }.handleConcurrencyRelease pick gateKeys.keys).Counts := by
  refine counts_foldl_drainPending
    (c := { c with releases := c.releases.eraseIdx n, gates := releaseGates c.gates gateKeys.keys }) ⟨?_, h.recorded⟩ _
  refine Balanced.release (c := { c with releases := c.releases.eraseIdx n }) ?_
  intro k g hg
  have hbalance := h.balanced k g hg
  have hcount : c.releases.countP (k ∈ ·.keys) =
      (c.releases.eraseIdx n).countP (k ∈ ·.keys) + if k ∈ gateKeys.keys then 1 else 0 := by
    obtain ⟨hn, rfl⟩ := List.getElem?_eq_some_iff.1 hkeys
    rw [← (getElem_cons_eraseIdx_perm hn).countP_eq, countP_cons]
    simp only [decide_eq_true_eq]
  rw [append_nil, hbalance, gateKeys.nodup.count]
  simp only [holders, Meter.reading, holdsOf, count_nil]
  omega

theorem counts_removeOrphanedGates : c.removeOrphanedGates.Counts := by
  refine Counts.withGates ⟨h.balanced, h.recorded⟩ fun key g hg => ?_
  rw [lookup_keep] at hg
  split at hg
  · exact ⟨g, hg, rfl⟩
  · cases hg

/-- A limit is set; a gate that is created for it is not held by any trigger. -/
theorem Counts.setLimit {limit : Nat} (hfree : key ∈ c.gates ∨ c.holders key = 0) :
    Counts { c with gates := setLimit c.gates key limit } := by
  unfold JobPool.setLimit
  split
  · next g hg => exact h.insert _ hg rfl
  · next hg =>
    have hzero := hfree.resolve_left (AList.lookup_eq_none.1 hg)
    refine ⟨fun k g hk => ?_, h.recorded⟩
    by_cases heq : k = key
    · subst heq
      rw [AList.lookup_insert] at hk
      cases hk
      exact hzero.symm
    · rw [AList.lookup_insert_ne heq] at hk
      exact h.balanced k g hk

end

theorem mem_setLimit {limit : Nat} {k : String} (h : k ∈ gates) : k ∈ setLimit gates key limit := by
  unfold JobPool.setLimit
  split <;> exact (AList.mem_insert _).2 (.inr h)

theorem counts_handleAdd {r : WatchJobsRequest} (h : c.Counts) (hm : c.Meets (.add r)) : (c.handleAdd r).Counts := by
  have hlimits : ∀ (limits : List (String × Nat)) (c : Connections), c.Counts →
      (∀ limit ∈ limits, limit.1 ∈ c.gates ∨ c.holders limit.1 = 0) →
      Counts { c with gates := limits.foldl (fun gates limit => JobPool.setLimit gates limit.1 limit.2) c.gates } := by
    intro limits
    induction limits with
    | nil => exact fun c h _ => h
    | cons limit limits ih =>
      intro c h hfree
      refine ih { c with gates := JobPool.setLimit c.gates limit.1 limit.2 } (h.setLimit (hfree limit mem_cons_self)) ?_
      intro limit' hmem
      exact (hfree limit' (mem_cons_of_mem _ hmem)).imp mem_setLimit id
  have hset := hlimits _ c h hm
  have hstream : ∀ μ : Meter, μ.onStreams (c.streams.add (.connected r
      ((r.concurrencyLimits.filterMap (·.gate)).map (·.1)))) = μ.onStreams c.streams := fun μ => Meter.onStreams_add
  refine counts_removeOrphanedGates ⟨fun key g hg => ?_, h.recorded⟩
  have hbalance := hset.balanced key g hg
  rw [hbalance, holders, holders, Meter.reading, Meter.reading, hstream]

/-- Two states with the same gates, in which all meters read the same. -/
theorem Counts.same (h : c.Counts) (hgates : c'.gates = c.gates) (hreading : ∀ μ : Meter, μ.reading c' = μ.reading c)
    (hrecorded : c'.recorded = c.recorded) : c'.Counts := by
  refine ⟨fun key g hg => ?_, hrecorded ▸ h.recorded⟩
  rw [holders, hreading]
  exact h.balanced key g (hgates ▸ hg)

theorem counts_streamStep {m : Move} {i : Nat} {st : Stream} (h : c.Counts) (hst : c.streams.lookup i = some st)
    (hs : c.streamStep i st m = some c') : c'.Counts := by
  by_cases hm : ∃ i, m = .down i
  · obtain ⟨i', rfl⟩ := hm
    simp only [streamStep] at hs
    split at hs
    · next hdown =>
      obtain ⟨-, hapart⟩ :=
        Meter.resolveAll_keeps (c := { c with streams := c.streams.erase i }) st.inflight.entries
      have hresolve := h.same hapart.gates (fun μ => Meter.reading_down hst hdown.2.1) hapart.recorded
      cases hs
      split
      · have horphans := counts_removeOrphanedGates hresolve
        exact ⟨horphans.balanced, horphans.recorded⟩
      · exact hresolve
    · cases hs
  · have hread := fun μ => Meter.reading_streamStep (μ := μ) (fun i heq => hm ⟨i, heq⟩) hst hs
    obtain ⟨-, hapart⟩ := hread (holdsOf "")
    exact h.same hapart.gates (fun μ => (hread μ).1) hapart.recorded

theorem counts_step {m : Move} (h : c.Counts) (hm : c.Meets m) (hs : c.step m = some c') : c'.Counts := by
  have hstream : ∀ {i : Nat}, ((c.streams.lookup i).bind fun st => c.streamStep i st m) = some c' → c'.Counts := by
    intro i hs
    obtain ⟨st, hst, hs⟩ := Option.bind_eq_some_iff.1 hs
    exact counts_streamStep h hst hs
  cases m with
  | add req =>
    obtain ⟨-, rfl⟩ := of_guard hs
    exact counts_handleAdd h hm
  | closeStream i =>
    obtain ⟨-, rfl⟩ := of_guard hs
    unfold handleCloseStream
    split
    · exact h
    · next st hst =>
      refine h.same rfl (fun μ => ?_) rfl
      have hclose : μ.onStreams (c.streams.update i (·.close)) = μ.onStreams c.streams :=
        Meter.onStreams_update_same hst rfl
      rw [Meter.reading, Meter.reading, hclose]
  | trigger appId target concurrencyKey pick =>
    obtain ⟨-, rfl⟩ := of_guard hs
    exact counts_handleTriggerRequest ⟨h.balanced, h.recorded⟩
  | release n pick =>
    simp only [step] at hs
    split at hs
    · next hkeys =>
      obtain ⟨-, rfl⟩ := of_guard hs
      exact counts_release h hkeys
    · cases hs
  | schedulerInfo count idx order pick =>
    obtain ⟨-, rfl⟩ := of_guard hs
    exact counts_foldl_drainPending
      (c := { c with schedulerCount := max count 1, schedulerIdx := idx }) ⟨h.balanced, h.recorded⟩ order
  | shutdown =>
    obtain ⟨-, rfl⟩ := of_guard hs
    exact ⟨h.balanced, h.recorded⟩
  | finish =>
    obtain ⟨-, rfl⟩ := of_guard hs
    refine ⟨fun key g hg => ?_, h.recorded⟩
    cases hg
  | take | sent | sendFailed | recv | down => exact hstream hs

/-! ## Whole runs -/

/-- The states that are reached by moves that meet the condition. -/
def Counted : Connections → Prop := Reachable (· = empty) (Steps Meets step)

/-- Each gate counts the triggers that hold it, and every trigger that was dispatched was let through its gates
below their limits. -/
theorem gate_counts_holders (h : c.Counted) :
    (∀ key g, c.gates.lookup key = some g → g.current = c.holders key) ∧
      ∀ e ∈ c.recorded, 0 < e.current ∧ e.current ≤ e.limit := by
  have hcounts : c.Counts := by
    refine Reachable.invariant Counts ?_ ?_ h
    · rintro c rfl
      refine ⟨fun key g hg => ?_, fun e he => absurd he not_mem_nil⟩
      cases hg
    · rintro c c' hc ⟨m, hm, hs⟩
      exact counts_step hc hm hs
  exact ⟨hcounts.balanced, hcounts.recorded⟩

instance (c : Connections) : (m : Move) → Decidable (c.Meets m)
  | .add req => inferInstanceAs (Decidable (∀ limit ∈ req.concurrencyLimits.filterMap (·.gate),
      limit.1 ∈ c.gates ∨ c.holders limit.1 = 0))
  | .closeStream _ | .trigger _ _ _ _ | .release _ _ | .schedulerInfo _ _ _ _ | .shutdown | .take _ | .sent _
  | .sendFailed _ | .recv _ _ _ | .down _ | .finish => .isTrue trivial

/-- Two triggers through a gate with a limit of two. -/
theorem gate_counts_holders_two :
    let moves : List Move := [.add ⟨"app", true, ["T"], [⟨2, some "T", none⟩]⟩,
      .trigger "app" (.actor "T") none (fun _ => 0), .trigger "app" (.actor "T") none (fun _ => 0)]
    ∃ c g, runFrom step empty moves = some c ∧ c.gates.lookup "T" = some g ∧ g.current = 2 ∧
      g.current = c.holders "T" := by
  intro moves
  have hrun : (runFrom (guarded Meets step) empty moves).map
      (fun c => (c.gates.lookup "T").map (·.current)) = some (some 2) := by decide +kernel
  obtain ⟨c, hc, heq⟩ := Option.map_eq_some_iff.1 hrun
  obtain ⟨g, hg, hcurrent⟩ := Option.map_eq_some_iff.1 heq
  have hcounted : c.Counted := reachable_of_guarded (.start rfl) hc
  exact ⟨c, g, runFrom_of_guarded hc, hg, hcurrent, (gate_counts_holders hcounted).1 "T" g hg⟩

/-- The only stream that asks for a limit of one closes while a trigger is in flight; another one connects, and
a second trigger goes through the new gate, before the first trigger's release is handled. The gate then
counts nothing and lets a third trigger through beside the second. -/
theorem release_of_earlier_gate :
    (runFrom step empty [.add ⟨"app", true, ["T"], [⟨1, some "T", none⟩]⟩,
      .trigger "app" (.actor "T") none (fun _ => 0), .closeStream 0, .take 0, .sent 0, .down 0,
      .add ⟨"app", true, ["T"], [⟨1, some "T", none⟩]⟩, .trigger "app" (.actor "T") none (fun _ => 0),
      .release 0 (fun _ => 0), .trigger "app" (.actor "T") none (fun _ => 0)]).map
        (fun c => ((c.gates.lookup "T").map fun g => (g.current, c.localLimit g), c.holders "T")) =
      some (some (1, 1), 2) := by
  decide +kernel

end Connections

end Dapr.JobPool
