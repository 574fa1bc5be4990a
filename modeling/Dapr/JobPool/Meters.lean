import Dapr.JobPool.Connections
/-!
# What is counted of the triggers on the streams

A meter weighs each trigger that is on a stream, and goes on to count it in the ledger that its
result function writes to. So it reads the same whatever a stream does by itself.
-/

namespace Dapr.JobPool

open Lib.Totals List

def Stream.weigh (st : Stream) (w : Sent → Nat) : Nat := (st.queue.map w).sum + total (fun _ x => w x) st.inflight

/-- A weight of triggers that goes to a ledger when they end. -/
structure Meter where
  weigh : Sent → Nat
  ledger : List (Nat × Result) → List GateKeys → Nat
  ledger_resultFn : ∀ answered releases (x : Sent) result,
    ledger (answered ++ [(x.req.id, result)]) (releases ++ x.gateKeys.toList) = ledger answered releases + weigh x

/-- What the streams leave alone. -/
structure Connections.Apart (c c' : Connections) : Prop where
  gates : c'.gates = c.gates
  phase : c'.phase = c.phase
  given : c'.given = c.given
  recorded : c'.recorded = c.recorded
  count : c'.schedulerCount = c.schedulerCount
  idx : c'.schedulerIdx = c.schedulerIdx

namespace Meter

def onStreams (μ : Meter) (s : Streams) : Nat := total (fun _ st => st.weigh μ.weigh) s.table

def reading (μ : Meter) (c : Connections) : Nat := μ.onStreams c.streams + μ.ledger c.answered c.releases

variable {μ : Meter} {c c' : Connections} {s : Streams} {st : Stream} {x : Sent} {i id : Nat}

theorem onStreams_update {f : Stream → Stream} (h : s.lookup i = some st) :
    μ.onStreams (s.update i f) + st.weigh μ.weigh = μ.onStreams s + (f st).weigh μ.weigh :=
  total_modify h

theorem onStreams_update_same {f : Stream → Stream} (h : s.lookup i = some st)
    (hf : (f st).weigh μ.weigh = st.weigh μ.weigh) : μ.onStreams (s.update i f) = μ.onStreams s := by
  have := onStreams_update (μ := μ) (f := f) h
  omega

theorem onStreams_erase (h : s.lookup i = some st) :
    μ.onStreams (s.erase i) + st.weigh μ.weigh = μ.onStreams s :=
  total_erase h

theorem onStreams_add : μ.onStreams (s.add st) = μ.onStreams s + st.weigh μ.weigh :=
  total_insert_new s.lookup_next

theorem weigh_enqueue {w : Sent → Nat} : (st.enqueue x).weigh w = st.weigh w + w x := by
  simp only [Stream.weigh, Stream.enqueue, map_append, sum_append, map_cons, map_nil,
    sum_cons, sum_nil]
  omega

theorem weigh_take {w : Sent → Nat} {rest : List Sent} (h : st.queue = x :: rest) :
    (st.take x rest).weigh w = st.weigh w := by
  simp only [Stream.weigh, Stream.take, h, map_cons, sum_cons, total_insert_new st.lookup_next]
  omega

theorem weigh_remove {w : Sent → Nat} (h : st.inflight.lookup id = some x) : (st.remove id).weigh w + w x = st.weigh w := by
  have := total_erase (f := fun _ x => w x) h
  simp only [Stream.weigh, Stream.remove]
  omega

theorem reading_resultFn {result : Result} : μ.reading (c.resultFn x result) = μ.reading c + μ.weigh x := by
  simp only [reading, Connections.resultFn, μ.ledger_resultFn]
  omega

theorem reading_streamEnqueue (h : c.streams.lookup i = some st) :
    μ.reading (c.streamEnqueue i x) = μ.reading c + μ.weigh x := by
  have := onStreams_update (μ := μ) (f := (·.enqueue x)) h
  rw [weigh_enqueue] at this
  simp only [reading, Connections.streamEnqueue]
  omega

theorem reading_resolve {result : Result} (h : c.streams.lookup i = some st) :
    μ.reading (c.resolve i st id result) = μ.reading c := by
  unfold Connections.resolve
  split
  · rfl
  · next x hx =>
    have hupdate := onStreams_update (μ := μ) (f := (·.remove id)) h
    have hremove := weigh_remove (w := μ.weigh) hx
    rw [reading_resultFn]
    simp only [reading]
    omega

theorem reading_resolveAll {sents : List (Σ _ : Nat, Sent)} :
    μ.reading (c.resolveAll sents) = μ.reading c + (sents.map fun e => μ.weigh e.2).sum := by
  unfold Connections.resolveAll
  induction sents generalizing c with
  | nil => simp
  | cons e sents ih =>
    rw [foldl_cons, ih, reading_resultFn, map_cons, sum_cons]
    omega

/-- Answering the triggers of a stream only writes to the ledgers. -/
theorem resolveAll_keeps (sents : List (Σ _ : Nat, Sent)) :
    (c.resolveAll sents).streams = c.streams ∧ c.Apart (c.resolveAll sents) := by
  induction sents generalizing c with
  | nil => exact ⟨rfl, rfl, rfl, rfl, rfl, rfl, rfl⟩
  | cons e sents ih =>
    obtain ⟨hstreams, hapart⟩ := ih
    exact ⟨hstreams, hapart.gates, hapart.phase, hapart.given, hapart.recorded, hapart.count, hapart.idx⟩

theorem resolve_apart (st : Stream) (id : Nat) (result : Result) : c.Apart (c.resolve i st id result) := by
  unfold Connections.resolve
  split <;> exact ⟨rfl, rfl, rfl, rfl, rfl, rfl⟩

/-- A stream that shuts down answers everything that is on it. -/
theorem reading_down (h : c.streams.lookup i = some st) (hqueue : st.queue = []) :
    μ.reading ({ c with streams := c.streams.erase i }.resolveAll st.inflight.entries) = μ.reading c := by
  have herase := onStreams_erase (μ := μ) h
  have hweigh : st.weigh μ.weigh = (st.inflight.entries.map fun e => μ.weigh e.2).sum := by
    simp [Stream.weigh, hqueue, total]
  rw [reading_resolveAll]
  simp only [reading]
  omega

theorem reading_streamStep {m : Move} (hm : ∀ i, m ≠ .down i) (h : c.streams.lookup i = some st)
    (hs : c.streamStep i st m = some c') : μ.reading c' = μ.reading c ∧ c.Apart c' := by
  have hsending : (c.streams.update i (·.doneSending)).lookup i = some st.doneSending := by
    rw [Streams.lookup, Streams.update, lookup_modify_self]
    exact congrArg (Option.map _) h
  have hdone : μ.onStreams (c.streams.update i (·.doneSending)) = μ.onStreams c.streams :=
    onStreams_update_same h rfl
  cases m with
  | take _ =>
    simp only [Connections.streamStep] at hs
    split at hs
    · next x rest _ hqueue =>
      cases hs
      refine ⟨?_, rfl, rfl, rfl, rfl, rfl, rfl⟩
      have := onStreams_update_same (μ := μ) (f := (·.take x rest)) h (weigh_take hqueue)
      simp only [reading, this]
    · cases hs
  | sent _ =>
    simp only [Connections.streamStep] at hs
    split at hs
    · cases hs
      refine ⟨?_, rfl, rfl, rfl, rfl, rfl, rfl⟩
      simp only [reading, hdone]
    · cases hs
  | sendFailed _ =>
    simp only [Connections.streamStep] at hs
    split at hs
    · next id _ =>
      cases hs
      have hapart := resolve_apart (c := { c with streams := c.streams.update i (·.doneSending) }) (i := i)
        st.doneSending id .undeliverable
      refine ⟨?_, hapart.gates, hapart.phase, hapart.given, hapart.recorded, hapart.count, hapart.idx⟩
      rw [reading_resolve hsending]
      simp only [reading, hdone]
    · cases hs
  | recv _ id success =>
    cases hs
    exact ⟨reading_resolve h, resolve_apart st id _⟩
  | down i' => exact absurd rfl (hm i')
  | _ => cases hs

end Meter

/-- The stream that a trigger goes to is connected and serves it. -/
theorem Connections.getStreamLoop_some {c : Connections} {pick : Nat → Nat} {req : TriggerRequest} {i : Nat}
    (h : c.getStreamLoop pick req = some i) :
    ∃ st, c.streams.lookup i = some st ∧ st.closing = false ∧ st.serves req = true := by
  obtain ⟨e, he, rfl⟩ := mem_map.1 (mem_of_getElem? h)
  obtain ⟨hmem, hserves⟩ := mem_filter.1 he
  rw [Bool.and_eq_true, Bool.not_eq_true'] at hserves
  exact ⟨e.2, AList.mem_lookup_iff.2 hmem, hserves⟩

end Dapr.JobPool
