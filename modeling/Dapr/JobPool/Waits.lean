import Dapr.JobPool.Answers
/-!
# What pending triggers wait for

A trigger waits at a gate because some gate that it needs is full. A handler that makes room at a gate
tries the triggers that wait there, and stops after the first that it dispatches. That is enough
after a release, which makes room for one trigger; it is not when a limit rises or a gate is
dropped, and the conditions of this module exclude that while triggers wait for it.
-/

namespace Dapr.JobPool

open Lib.Totals Lib.Runs List

variable {g : ConcurrencyGate}

namespace Connections

def needs (c : Connections) (req : TriggerRequest) : List String := (gateKeysForTrigger c.gates req).keys

def hasRoom (c : Connections) (key : String) : Bool := (c.gates.lookup key).any fun g => g.current < c.localLimit g

/-- There is room for a trigger at every gate that it needs, and a stream is connected that it may go to. -/
def WaitsForNothing (c : Connections) (req : TriggerRequest) : Prop :=
  (∀ key ∈ c.needs req, c.hasRoom key = true) ∧ c.candidates req ≠ []

instance (c : Connections) (req : TriggerRequest) : Decidable (c.WaitsForNothing req) :=
  inferInstanceAs (Decidable (_ ∧ _))

/-- The gate of the key has no room. -/
def Full (c : Connections) (key : String) : Prop := ∃ g, c.gates.lookup key = some g ∧ c.localLimit g ≤ g.current

/-- Some gate that the trigger needs is full. -/
def Blocked (c : Connections) (req : TriggerRequest) : Prop := ∃ key ∈ c.needs req, c.Full key

def limitsOf (req : WatchJobsRequest) : List (String × Nat) := req.concurrencyLimits.filterMap (·.gate)

/-- What is asked of a move, as long as triggers wait. A connecting stream raises no limit of a gate that one of
them needs; no gate that one of them needs is dropped, unless it waits there; when gates are released, one
that needs one of them waits at one of them; and when the scheduler's place changes, no limit rises of a gate that
is needed by a trigger that does not wait alone. -/
def Conserves (c : Connections) : Move → Prop
  | .add r => ∀ key ∈ c.gates.keys, ∀ req ∈ c.queueOf key, ∀ k ∈ c.needs req,
      (∀ limit ∈ limitsOf r, limit.1 = k → ∀ g ∈ c.gates.lookup k,
        c.localLimit { g with globalLimit := limit.2 } ≤ c.localLimit g) ∧
      (c.referenced key = true ∨ key ∈ (limitsOf r).map (·.1) → c.referenced k = true ∨ k ∈ (limitsOf r).map (·.1))
  | .release n _ => ∀ gateKeys ∈ c.releases[n]?, ∀ key ∈ c.gates.keys, ∀ req ∈ c.queueOf key, ∀ k ∈ c.needs req,
      k ∈ gateKeys.keys → key ∈ gateKeys.keys
  | .schedulerInfo count idx _ _ => ∀ key ∈ c.gates.keys, (c.queueOf key).length ≤ 1 ∨
      ∀ req ∈ c.queueOf key, ∀ k ∈ c.needs req, ∀ g ∈ c.gates.lookup k,
        localLimitFromGlobal g.globalLimit (max count 1) idx ≤ c.localLimit g
  | .down i => c.phase = .closing i → ∀ key ∈ c.gates.keys, ∀ req ∈ c.queueOf key, ∀ k ∈ c.needs req,
      referenced { c with streams := c.streams.erase i } key = true →
        referenced { c with streams := c.streams.erase i } k = true
  | _ => True

variable {c c' c'' : Connections} {key : String} {req : TriggerRequest} {pick : Nat → Nat} {n n' : String → Nat}

theorem mem_needs : key ∈ c.needs req ↔ key ∈ keysOf req ∧ key ∈ c.gates := by
  simp [needs, gateKeysForTrigger]

theorem not_waitsForNothing (h : c.Blocked req) : ¬ c.WaitsForNothing req := by
  rintro ⟨hroom, -⟩
  obtain ⟨key, hkey, g, hg, hfull⟩ := h
  have := hroom key hkey
  simp only [hasRoom, hg, Option.any_some, decide_eq_true_eq] at this
  omega

theorem mem_of_mem_queueOf (h : req ∈ c.queueOf key) : key ∈ c.gates := by
  refine AList.lookup_isSome.1 ?_
  cases hg : c.gates.lookup key with
  | none => simp [queueOf, hg] at h
  | some g => rfl

/-! ## The levels of the gates -/

/-- The same limits, and the counters higher by so much. -/
structure Lifts (n : String → Nat) (c c' : Connections) : Prop where
  count : c'.schedulerCount = c.schedulerCount
  idx : c'.schedulerIdx = c.schedulerIdx
  gates : ∀ key, (c'.gates.lookup key).map (fun g => (g.globalLimit, g.current)) =
    (c.gates.lookup key).map fun g => (g.globalLimit, g.current + n key)

theorem Lifts.refl : Lifts (fun _ => 0) c c := ⟨rfl, rfl, fun _ => rfl⟩

theorem Lifts.symm (h : Lifts (fun _ => 0) c c') : Lifts (fun _ => 0) c' c :=
  ⟨h.count.symm, h.idx.symm, fun key => (h.gates key).symm⟩

theorem Lifts.trans (h : Lifts n c c') (h' : Lifts n' c' c'') : Lifts (fun k => n k + n' k) c c'' := by
  refine ⟨h'.count.trans h.count, h'.idx.trans h.idx, fun k => ?_⟩
  have hmap := congrArg (Option.map fun l : Nat × Nat => (l.1, l.2 + n' k)) (h.gates k)
  rw [h'.gates k]
  simpa [Function.comp_def, Nat.add_assoc] using hmap

theorem Lifts.lookup (h : Lifts n c c') (hg : c.gates.lookup key = some g) :
    ∃ g', c'.gates.lookup key = some g' ∧ c'.localLimit g' = c.localLimit g ∧ g'.current = g.current + n key := by
  have hkey := h.gates key
  rw [hg] at hkey
  obtain ⟨g', hg', hlevel⟩ := Option.map_eq_some_iff.1 hkey
  obtain ⟨hlimit, hcurrent⟩ := Prod.mk.inj hlevel
  exact ⟨g', hg', by rw [localLimit, localLimit, h.count, h.idx, hlimit], hcurrent⟩

theorem Lifts.mem (h : Lifts n c c') : key ∈ c'.gates ↔ key ∈ c.gates := by
  rw [← AList.lookup_isSome, ← AList.lookup_isSome]
  have := congrArg Option.isSome (h.gates key)
  simpa using Iff.of_eq (congrArg (· = true) this)

theorem Lifts.needs (h : Lifts n c c') : c'.needs req = c.needs req :=
  filter_congr fun _ _ => decide_eq_decide.2 h.mem

theorem Lifts.full (h : Lifts n c c') (hfull : c.Full key) : c'.Full key := by
  obtain ⟨g, hg, hle⟩ := hfull
  obtain ⟨g', hg', hlimit, hcurrent⟩ := h.lookup hg
  exact ⟨g', hg', by omega⟩

theorem Lifts.blocked (h : Lifts n c c') (hb : c.Blocked req) : c'.Blocked req := by
  obtain ⟨key, hkey, hfull⟩ := hb
  exact ⟨key, h.needs ▸ hkey, h.full hfull⟩

/-- Acquiring gates lifts their counters. -/
theorem lifts_acquire {keys acquired : List String} {ok : Bool} {gates : Gates}
    (hacq : c.acquire keys = (acquired, ok, gates)) (hgates : c'.gates = gates)
    (hcount : c'.schedulerCount = c.schedulerCount) (hidx : c'.schedulerIdx = c.schedulerIdx) :
    Lifts (fun key => acquired.count key) c c' := by
  refine ⟨hcount, hidx, fun k => ?_⟩
  rw [hgates, (acquireGates_spec hacq).1 k, Option.map_map]
  rfl

/-- When not all gates could be acquired, those that were are released, and one is full. -/
theorem blocked_of_acquire {acquired : List String} {gates : Gates} {gateKeys : GateKeys}
    (hacq : c.acquire gateKeys.keys = (acquired, false, gates)) :
    (∀ key, (releaseGates gates acquired).lookup key = c.gates.lookup key) ∧
      ∃ key ∈ gateKeys.keys, key ∈ c.gates → c.Full key := by
  obtain ⟨hlookup, -, -, hfail⟩ := acquireGates_spec hacq
  refine ⟨fun k => ?_, ?_⟩
  · rw [lookup_releaseGates, hlookup k]
    cases c.gates.lookup k with
    | none => rfl
    | some g => exact congrArg some (g.lower_raise _)
  · obtain ⟨k, rest, hkeys, hfull⟩ := hfail rfl
    have hnodup := gateKeys.nodup
    rw [hkeys] at hnodup
    have hnot : k ∉ acquired := fun hmem => (disjoint_of_nodup_append hnodup) hmem mem_cons_self
    refine ⟨k, by rw [hkeys]; simp, fun hmem => ?_⟩
    obtain ⟨g, hg⟩ := Option.isSome_iff_exists.1 (AList.lookup_isSome.2 hmem)
    refine ⟨g, hg, hfull g ?_⟩
    rw [hlookup k, hg, count_eq_zero_of_not_mem hnot]
    rfl

/-- An attempt that keeps the trigger finds a full gate; one that dispatches it lifts the gates that it needs, which
had room. -/
theorem tryDispatchPending_levels {attempt : Attempt} (h : c.tryDispatchPending pick req = (attempt, c')) :
    match attempt with
    | .dispatched => Lifts (fun key => (c.needs req).count key) c c' ∧ ∀ key ∈ c.needs req, ¬ c.Full key
    | .consumed => Lifts (fun _ => 0) c c'
    | .kept => Lifts (fun _ => 0) c c' ∧ c.Blocked req := by
  unfold tryDispatchPending at h
  split at h
  · cases h
    exact ⟨rfl, rfl, fun _ => rfl⟩
  · dsimp only at h
    split at h
    · next acquired gates hacq =>
      cases h
      obtain ⟨hlookup, hle, hall, -⟩ := acquireGates_spec hacq
      obtain rfl := hall rfl
      refine ⟨lifts_acquire hacq rfl rfl rfl, ?_⟩
      rintro key hkey ⟨g, hg, hfull⟩
      obtain ⟨g', hg', hle⟩ := hle key hkey
      rw [hlookup key, hg] at hg'
      cases hg'
      have hpos := count_pos_iff.2 hkey
      change g.current + (c.needs req).count key ≤ c.localLimit g at hle
      omega
    · next acquired gates hacq =>
      cases h
      obtain ⟨hsame, key, hkey, hfull⟩ := blocked_of_acquire hacq
      refine ⟨⟨rfl, rfl, fun k => ?_⟩, key, hkey, hfull (mem_needs.1 hkey).2⟩
      exact congrArg (Option.map _) (hsame k)

/-! ## Draining -/

theorem lifts_withQueue {reqs : List TriggerRequest} (hg : c.gates.lookup key = some g) :
    Lifts (fun _ => 0) c (c.withQueue key g reqs) := by
  refine ⟨rfl, rfl, fun k => ?_⟩
  by_cases hk : k = key
  · subst hk
    simp [withQueue, hg]
  · rw [withQueue, AList.lookup_insert_ne hk]
    rfl

theorem lifts_requeueFront {reqs : List TriggerRequest} : Lifts (fun _ => 0) c (c.requeueFront key reqs) := by
  refine ⟨rfl, rfl, fun k => ?_⟩
  by_cases hk : k = key
  · subst hk
    rw [requeueFront, lookup_modify_self, Option.map_map]
    rfl
  · rw [requeueFront, lookup_modify_ne hk]
    rfl

/-- A trigger of the queue is dispatched: the gates that it needs had room, and count it now. -/
def Dispatched (c : Connections) (key : String) (c' : Connections) : Prop :=
  ∃ req ∈ c.queueOf key, Lifts (fun k => (c.needs req).count k) c c' ∧ ∀ k ∈ c.needs req, ¬ c.Full k

/-- A drain that has dispatched nothing yet, with so many attempts left. -/
structure Searching (c : Connections) (key : String) (n : Nat) (skipped : List TriggerRequest) (c' : Connections) : Prop where
  drain : Draining c key skipped c'
  levels : Lifts (fun _ => 0) c c'
  skipped : ∀ req ∈ skipped, c.Blocked req
  left : (c'.queueOf key).length ≤ n

/-- A drain that has dispatched a trigger. -/
structure Found (c : Connections) (key : String) (skipped : List TriggerRequest) (c' : Connections) : Prop where
  drain : Draining c key skipped c'
  dispatched : Dispatched c key c'
  shorter : (skipped ++ c'.queueOf key).length < (c.queueOf key).length

theorem Searching.attempt {n : Nat} {c₁ c₂ : Connections} {skipped rest : List TriggerRequest} {next : TriggerRequest} {attempt : Attempt}
    (h : Searching c key (n + 1) skipped c₁) (hg : c₁.gates.lookup key = some g) (hrest : g.pending = next :: rest)
    (hc₂ : (c₁.withQueue key g rest).tryDispatchPending pick next = (attempt, c₂)) :
    match attempt with
    | .dispatched => Found c key skipped c₂
    | .consumed => Searching c key n skipped c₂
    | .kept => Searching c key n (skipped ++ [next]) c₂ := by
  have hdrain := h.drain.attempt hg hrest hc₂
  have hlevels := tryDispatchPending_levels hc₂
  have htaken : Lifts (fun _ => 0) c (c₁.withQueue key g rest) := h.levels.trans (lifts_withQueue hg)
  have hqueue : c₁.queueOf key = next :: rest := by simp [queueOf, hg, hrest]
  have hsub : (skipped ++ next :: rest).Sublist (c.queueOf key) := hqueue ▸ h.drain.queue
  have hleft : (c₂.queueOf key).length ≤ n := by
    have := h.left
    rw [hqueue, length_cons] at this
    rw [queueOf_attempt hc₂]
    omega
  cases attempt with
  | dispatched =>
    obtain ⟨hlift, hroom⟩ := hlevels
    rw [htaken.needs] at hroom
    refine ⟨hdrain, ⟨next, hsub.subset (by simp), ?_, fun k hk hfull => hroom k hk (htaken.full hfull)⟩, ?_⟩
    · simpa [htaken.needs] using htaken.trans hlift
    · have := hsub.length_le
      rw [queueOf_attempt hc₂]
      simp only [length_append, length_cons] at this ⊢
      omega
  | consumed => exact ⟨hdrain, htaken.trans hlevels, h.skipped, hleft⟩
  | kept =>
    obtain ⟨hlift, hblocked⟩ := hlevels
    exact ⟨hdrain, htaken.trans hlift, forall_mem_concat h.skipped (htaken.symm.blocked hblocked), hleft⟩

/-- A drain leaves a queue in which everything is blocked, or dispatches one trigger. -/
theorem drainPending_spec (pick : Nat → Nat) (key : String) :
    (∀ k, k ≠ key → (c.drainPending pick key).queueOf k = c.queueOf k) ∧
      ((Lifts (fun _ => 0) c (c.drainPending pick key) ∧ ∀ req ∈ (c.drainPending pick key).queueOf key, c.Blocked req) ∨
      (Dispatched c key (c.drainPending pick key) ∧
        ((c.drainPending pick key).queueOf key).length < (c.queueOf key).length)) := by
  by_cases hkey : key ∈ c.gates
  · have hstart : Searching c key (c.queueOf key).length [] c :=
      ⟨⟨.refl, hkey, fun _ => rfl, fun _ _ => rfl, .refl _⟩, .refl, by simp, le_rfl⟩
    obtain ⟨skipped, c', heq, hend⟩ := drainLoop_rule pick key (P := Searching c key) (D := Found c key)
      (fun n skipped c₁ next g rest attempt c₂ h hg hrest hc₂ => by
        have := h.attempt hg hrest hc₂
        cases attempt <;> exact this)
      _ _ hstart
    have hdrain : Draining c key skipped c' := hend.elim (·.drain) fun ⟨_, h, _⟩ => h.drain
    obtain ⟨-, hothers, hqueue⟩ := requeueFront_spec skipped hdrain.mem
    have hlength : (c.queueOf key).length = ((c.gates.lookup key).map (·.pending.length)).getD 0 := by
      unfold queueOf
      cases c.gates.lookup key <;> rfl
    rw [drainPending, ← hlength, heq]
    refine ⟨fun k hk => (hothers k hk).trans (hdrain.others k hk), ?_⟩
    rw [hqueue]
    rcases hend with hfound | ⟨n, hsearch, hdone⟩
    · obtain ⟨req, hreq, hlift, hroom⟩ := hfound.dispatched
      exact .inr ⟨⟨req, hreq, hlift.trans lifts_requeueFront, hroom⟩, hfound.shorter⟩
    · have hnil : c'.queueOf key = [] := by
        rcases hdone with rfl | hnil
        · exact eq_nil_of_length_eq_zero (Nat.le_zero.1 hsearch.left)
        · exact hnil
      rw [hnil, append_nil]
      exact .inl ⟨hsearch.levels.trans lifts_requeueFront, hsearch.skipped⟩
  · rw [drainPending_of_notMem hkey]
    exact ⟨fun _ _ => rfl, .inl ⟨.refl, fun req hreq => absurd (mem_of_mem_queueOf hreq) hkey⟩⟩

theorem lifts_drainPending (pick : Nat → Nat) (key : String) : ∃ n, Lifts n c (c.drainPending pick key) := by
  rcases (drainPending_spec pick key).2 with ⟨h, -⟩ | ⟨⟨_, _, h, -⟩, -⟩
  · exact ⟨_, h⟩
  · exact ⟨_, h⟩

/-- Queues are drained in turn, each until everything left in it is blocked; what else waits is blocked already. -/
theorem blocked_foldl_drainPending {I : Connections → Prop} {keys : List String}
    (hstep : ∀ key ∈ keys, ∀ c, I c → I (c.drainPending pick key) ∧
      ∀ req ∈ (c.drainPending pick key).queueOf key, (c.drainPending pick key).Blocked req)
    (h : I c) (hblocked : ∀ key, key ∉ keys → ∀ req ∈ c.queueOf key, c.Blocked req) :
    ∀ key, ∀ req ∈ (keys.foldl (fun c key => c.drainPending pick key) c).queueOf key,
      (keys.foldl (fun c key => c.drainPending pick key) c).Blocked req := by
  induction keys generalizing c with
  | nil => exact fun key => hblocked key not_mem_nil
  | cons key keys ih =>
    obtain ⟨hI, hdrained⟩ := hstep key mem_cons_self c h
    refine ih (fun k hk => hstep k (mem_cons_of_mem _ hk)) hI fun k hk req hreq => ?_
    by_cases heq : k = key
    · exact hdrained req (heq ▸ hreq)
    · obtain ⟨n, hlift⟩ := lifts_drainPending pick key
      rw [(drainPending_spec pick key).1 k heq] at hreq
      refine hlift.blocked (hblocked k ?_ req hreq)
      simp [heq, hk]

/-! ## What each event leaves waiting -/

/-- Every pending trigger waits at a gate of its own, and some gate that it needs is full. -/
structure Waits (c : Connections) : Prop where
  home : ∀ key, ∀ req ∈ c.queueOf key, key ∈ keysOf req
  blocked : ∀ key, ∀ req ∈ c.queueOf key, c.Blocked req

theorem Waits.mem_needs (h : c.Waits) (hreq : req ∈ c.queueOf key) : key ∈ c.needs req :=
  Connections.mem_needs.2 ⟨h.home key req hreq, mem_of_mem_queueOf hreq⟩

/-- Counters rise, and what is new in a queue is blocked. -/
theorem Waits.lifts (h : c.Waits) (hlift : Lifts n c c')
    (hqueue : ∀ key, ∀ req ∈ c'.queueOf key, req ∈ c.queueOf key ∨ key ∈ keysOf req ∧ c.Blocked req) : c'.Waits := by
  refine ⟨fun key req hreq => ?_, fun key req hreq => ?_⟩
  · rcases hqueue key req hreq with hold | ⟨hkey, -⟩
    · exact h.home key req hold
    · exact hkey
  · rcases hqueue key req hreq with hold | ⟨-, hblocked⟩
    · exact hlift.blocked (h.blocked key req hold)
    · exact hlift.blocked hblocked

theorem Waits.sameGates (h : c.Waits) (hcount : c'.schedulerCount = c.schedulerCount)
    (hidx : c'.schedulerIdx = c.schedulerIdx) (hgates : c'.gates = c.gates) : c'.Waits := by
  refine h.lifts (n := fun _ => 0) ⟨hcount, hidx, fun key => by rw [hgates]; rfl⟩ fun key req hreq => .inl ?_
  rw [queueOf, hgates] at hreq
  exact hreq

theorem waits_handleTriggerRequest (h : c.Waits) : (c.handleTriggerRequest pick req).Waits := by
  have hsame : ∀ {gates : Gates} {key : String} {r : TriggerRequest}, SamePending c.gates gates →
      r ∈ ((gates.lookup key).map (·.pending)).getD [] → r ∈ c.queueOf key := fun hpending hr => by
    rw [hpending] at hr
    exact hr
  unfold handleTriggerRequest
  split
  · exact h.sameGates rfl rfl rfl
  · dsimp only
    split
    · exact h.sameGates rfl rfl rfl
    · next primary _ hkeys =>
      split
      · next gates hacq =>
        exact h.lifts (lifts_acquire hacq rfl rfl rfl) fun key r hr => .inl (hsame (samePending_acquire hacq) hr)
      · next acquired gates hacq =>
        obtain ⟨hlookup, hblocked⟩ := blocked_of_acquire hacq
        have hpending := (samePending_acquire hacq).trans (samePending_release acquired)
        split
        · next gate hgate =>
          obtain ⟨g, hg, henqueue⟩ := Option.bind_eq_some_iff.1 hgate
          obtain rfl : gate = { g with pending := g.pending ++ [req] } := by
            unfold ConcurrencyGate.enqueue at henqueue
            split at henqueue
            · cases henqueue
            · exact (Option.some.inj henqueue).symm
          let c₁ : Connections := { c with gates := releaseGates gates acquired }
          have hundo : Lifts (fun _ => 0) c c₁ := ⟨rfl, rfl, fun k => congrArg (Option.map _) (hlookup k)⟩
          have hlift : Lifts (fun _ => 0) c (c₁.withQueue primary g (g.pending ++ [req])) :=
            hundo.trans (lifts_withQueue hg)
          refine h.lifts hlift fun key r hr => ?_
          have hprimary : primary ∈ c.needs req := by
            rw [needs, hkeys]
            exact mem_cons_self
          by_cases hkey : key = primary
          · subst hkey
            simp only [queueOf, AList.lookup_insert, Option.map_some, Option.getD_some, mem_append,
              mem_singleton] at hr
            rcases hr with hr | rfl
            · refine .inl (hsame hpending ?_)
              rw [hg]
              exact hr
            · obtain ⟨k, hk, hfull⟩ := hblocked
              exact .inr ⟨(Connections.mem_needs.1 hprimary).1, k, hk, hfull (Connections.mem_needs.1 hk).2⟩
          · refine .inl (hsame hpending ?_)
            rw [queueOf, AList.lookup_insert_ne hkey] at hr
            exact hr
        · refine h.lifts (n := fun _ => 0) ⟨rfl, rfl, fun k => congrArg (Option.map _) (hlookup k)⟩ fun key r hr => ?_
          exact .inl (hsame hpending hr)

end Connections

/-- There are two keys at most. -/
theorem GateKeys.eq_of_ne (gateKeys : GateKeys) {key k k' : String} (hkey : key ∈ gateKeys.keys) (hk : k ∈ gateKeys.keys)
    (hk' : k' ∈ gateKeys.keys) (hne : k ≠ key) (hne' : k' ≠ key) : k = k' := by
  obtain ⟨keys, hnodup, hlength⟩ := gateKeys
  match keys with
  | [] => cases hkey
  | [a] => simp_all
  | [a, b] => simp only [mem_cons] at hkey hk hk'; grind
  | _ :: _ :: _ :: _ => simp at hlength

namespace Connections

variable {c c' c'' : Connections} {key : String} {req : TriggerRequest} {pick : Nat → Nat} {n n' : String → Nat}

/-! ### Releases -/

/-- While the queues of released gates are drained: a gate that was full before the release lacks one trigger at
most, if it was released, and otherwise none. -/
structure Releasing (c : Connections) (gateKeys : GateKeys) (c' : Connections) : Prop where
  full : ∀ key, c.Full key → ∃ g, c'.gates.lookup key = some g ∧ c'.localLimit g ≤ g.current + gateKeys.keys.count key
  mem : ∀ key, key ∈ c'.gates ↔ key ∈ c.gates
  queue : ∀ key, (c'.queueOf key).Sublist (c.queueOf key)

variable {gateKeys : GateKeys}

theorem Releasing.needs (h : Releasing c gateKeys c') : c'.needs req = c.needs req :=
  filter_congr fun k _ => decide_eq_decide.2 (h.mem k)

theorem Releasing.full_of_notMem (h : Releasing c gateKeys c') (hfull : c.Full key) (hkey : key ∉ gateKeys.keys) :
    c'.Full key := by
  obtain ⟨g, hg, hle⟩ := h.full key hfull
  rw [count_eq_zero_of_not_mem hkey] at hle
  exact ⟨g, hg, hle⟩

theorem Releasing.drain (h : Releasing c gateKeys c') (key : String) : Releasing c gateKeys (c'.drainPending pick key) := by
  obtain ⟨n, hlift⟩ := lifts_drainPending pick key
  refine ⟨fun k hk => ?_, fun k => hlift.mem.trans (h.mem k), fun k => (drained_drainPending.queue k).trans (h.queue k)⟩
  obtain ⟨g, hg, hle⟩ := h.full k hk
  obtain ⟨g', hg', hlimit, hcurrent⟩ := hlift.lookup hg
  exact ⟨g', hg', by omega⟩

/-- A drain that dispatches a trigger fills a gate again that each of the others needs. -/
theorem Releasing.blocked (h : Releasing c gateKeys c') (hw : c.Waits) (hkey : key ∈ gateKeys.keys) :
    ∀ req ∈ (c'.drainPending pick key).queueOf key, (c'.drainPending pick key).Blocked req := by
  intro r hr
  rcases (drainPending_spec pick key).2 with ⟨hlift, hall⟩ | ⟨⟨d, hd, hlift, hroom⟩, -⟩
  · exact hlift.blocked (hall r hr)
  · have hr₀ : r ∈ c.queueOf key := ((h.drain key).queue key).subset hr
    have hd₀ : d ∈ c.queueOf key := (h.queue key).subset hd
    obtain ⟨kr, hkr, hfull_r⟩ := hw.blocked key r hr₀
    obtain ⟨kd, hkd, hfull_d⟩ := hw.blocked key d hd₀
    by_cases hmem_r : kr ∈ gateKeys.keys
    · -- what blocked the dispatched trigger was released
      have hmem_d : kd ∈ gateKeys.keys := Classical.byContradiction fun hnot =>
        hroom kd (h.needs ▸ hkd) (h.full_of_notMem hfull_d hnot)
      obtain ⟨k, hkr, hkd, hfull⟩ : ∃ k, k ∈ c.needs r ∧ k ∈ c.needs d ∧ c.Full k := by
        by_cases her : kr = key
        · exact ⟨kr, hkr, her ▸ hw.mem_needs hd₀, hfull_r⟩
        · by_cases hed : kd = key
          · exact ⟨kd, hed ▸ hw.mem_needs hr₀, hkd, hfull_d⟩
          · obtain rfl := gateKeys.eq_of_ne hkey hmem_r hmem_d her hed
            exact ⟨kr, hkr, hkd, hfull_r⟩
      obtain ⟨g, hg, hle⟩ := h.full k hfull
      obtain ⟨g', hg', hlimit, hcurrent⟩ := hlift.lookup hg
      have hone : gateKeys.keys.count k ≤ 1 := nodup_iff_count_le_one.1 gateKeys.nodup k
      have hpos : 0 < (c'.needs d).count k := count_pos_iff.2 (h.needs ▸ hkd)
      refine ⟨k, ?_, g', hg', by omega⟩
      rw [hlift.needs, h.needs]
      exact hkr
    · exact hlift.blocked ⟨kr, h.needs ▸ hkr, h.full_of_notMem hfull_r hmem_r⟩

theorem waits_handleConcurrencyRelease (h : c.Waits) (hhome : ∀ key, ∀ req ∈ c.queueOf key, ∀ k ∈ c.needs req,
    k ∈ gateKeys.keys → key ∈ gateKeys.keys) : (c.handleConcurrencyRelease pick gateKeys.keys).Waits := by
  let c₁ : Connections := { c with gates := releaseGates c.gates gateKeys.keys }
  have hqueue : ∀ key, c₁.queueOf key = c.queueOf key := fun key => by rw [queueOf, samePending_release _ key]; rfl
  have hstart : Releasing c gateKeys c₁ := by
    refine ⟨?_, fun key => (samePending_release _).mem, fun key => hqueue key ▸ .refl _⟩
    rintro key ⟨g, hg, hle⟩
    refine ⟨g.lower (gateKeys.keys.count key), ?_, ?_⟩
    · rw [lookup_releaseGates, hg]
      rfl
    · change c.localLimit g ≤ g.current - gateKeys.keys.count key + gateKeys.keys.count key
      omega
  refine ⟨fun key req hreq => h.home key req ((drained_handleConcurrencyRelease.queue key).subset hreq), ?_⟩
  refine blocked_foldl_drainPending ?_ hstart ?_
  · intro key hkey c' hc'
    exact ⟨hc'.drain key, hc'.blocked h (mem_of_mem_filter hkey)⟩
  · -- at a gate that is not drained, nothing that waits needs a released gate
    intro key hkey r hr
    rw [hqueue key] at hr
    obtain ⟨k, hk, hfull⟩ := h.blocked key r hr
    have hnot : k ∉ gateKeys.keys := fun hmem =>
      hkey (mem_filter.2 ⟨hhome key r hr k hk hmem, decide_eq_true (mem_of_mem_queueOf hr)⟩)
    exact ⟨k, hstart.needs ▸ hk, hstart.full_of_notMem hfull hnot⟩

/-! ### The scheduler's place -/

theorem waits_handleSchedulerInfoUpdate {count idx : Nat} {order : List String} (h : c.Waits)
    (horder : order.Perm c.gates.keys) (hm : c.Conserves (.schedulerInfo count idx order pick)) :
    (c.handleSchedulerInfoUpdate pick count idx order).Waits := by
  let c₁ : Connections := { c with schedulerCount := max count 1, schedulerIdx := idx }
  refine ⟨fun key req hreq => h.home key req ((drained_handleSchedulerInfoUpdate.queue key).subset hreq), ?_⟩
  refine blocked_foldl_drainPending
    (I := fun c' => (∃ n, Lifts n c₁ c') ∧ ∀ key, (c'.queueOf key).Sublist (c.queueOf key)) ?_
    ⟨⟨_, .refl⟩, fun _ => .refl _⟩ ?_
  · rintro key hkey c' ⟨⟨n, hlift⟩, hsub⟩
    have hsub' : ∀ k, ((c'.drainPending pick key).queueOf k).Sublist (c.queueOf k) :=
      fun k => (drained_drainPending.queue k).trans (hsub k)
    obtain ⟨n', hlift'⟩ := lifts_drainPending pick key
    refine ⟨⟨⟨_, hlift.trans hlift'⟩, hsub'⟩, fun r hr => ?_⟩
    rcases (drainPending_spec pick key).2 with ⟨-, hall⟩ | ⟨-, hshorter⟩
    · exact hlift'.blocked (hall r hr)
    · rcases hm key (horder.mem_iff.1 hkey) with hone | hlimits
      · have := (hsub key).length_le
        have := length_pos_of_mem hr
        omega
      · have hr₀ := (hsub' key).subset hr
        obtain ⟨k, hk, g, hg, hle⟩ := h.blocked key r hr₀
        have hblocked : c₁.Blocked r := ⟨k, hk, g, hg, (hlimits r hr₀ k hk g hg).trans hle⟩
        exact (hlift.trans hlift').blocked hblocked
  · intro key hkey r hr
    exact absurd (horder.mem_iff.2 (mem_of_mem_queueOf hr)) hkey

/-! ### Limits and gates -/

/-- Gates that no stream asks for are dropped; what still waits is blocked by a gate that stays. -/
theorem waits_removeOrphanedGates (hhome : ∀ key, ∀ req ∈ c.queueOf key, key ∈ keysOf req)
    (hstays : ∀ key, ∀ req ∈ c.queueOf key, c.referenced key = true →
      ∃ k ∈ c.needs req, c.Full k ∧ c.referenced k = true) : c.removeOrphanedGates.Waits := by
  have hlookup : ∀ k, c.removeOrphanedGates.gates.lookup k = if c.referenced k then c.gates.lookup k else none :=
    fun k => lookup_keep
  have hold : ∀ {key req}, req ∈ c.removeOrphanedGates.queueOf key → req ∈ c.queueOf key :=
    fun hreq => (drained_removeOrphanedGates.queue _).subset hreq
  refine ⟨fun key req hreq => hhome key req (hold hreq), fun key req hreq => ?_⟩
  have hkey : c.referenced key = true := by
    refine Classical.byContradiction fun hnot => ?_
    rw [queueOf, hlookup, if_neg hnot] at hreq
    cases hreq
  obtain ⟨k, hk, ⟨g, hg, hle⟩, href⟩ := hstays key req (hold hreq) hkey
  have hg' : c.removeOrphanedGates.gates.lookup k = some g := by rw [hlookup, if_pos href, hg]
  refine ⟨k, Connections.mem_needs.2 ⟨(Connections.mem_needs.1 hk).1, ?_⟩, g, hg', hle⟩
  exact AList.lookup_isSome.1 (by rw [hg']; rfl)

/-- A gate keeps its counter when limits are set, and its limit is the old one or one of those set. -/
theorem lookup_foldl_setLimit (limits : List (String × Nat)) {gates : Gates} (hg : gates.lookup key = some g) :
    ∃ g', (limits.foldl (fun gates limit => setLimit gates limit.1 limit.2) gates).lookup key = some g' ∧
      g'.current = g.current ∧
      (g'.globalLimit = g.globalLimit ∨ ∃ limit ∈ limits, limit.1 = key ∧ g'.globalLimit = limit.2) := by
  induction limits generalizing gates g with
  | nil => exact ⟨g, hg, rfl, .inl rfl⟩
  | cons limit limits ih =>
    by_cases hkey : limit.1 = key
    · have hset : (setLimit gates limit.1 limit.2).lookup key = some { g with globalLimit := limit.2 } := by
        rw [setLimit, hkey, hg, AList.lookup_insert]
      obtain ⟨g', hg', hcurrent, hlimit⟩ := ih hset
      refine ⟨g', hg', hcurrent, .inr ?_⟩
      rcases hlimit with hlimit | ⟨l, hl, hlimit⟩
      · exact ⟨limit, mem_cons_self, hkey, hlimit⟩
      · exact ⟨l, mem_cons_of_mem _ hl, hlimit⟩
    · have hset : (setLimit gates limit.1 limit.2).lookup key = some g := by
        unfold setLimit
        split <;> rw [AList.lookup_insert_ne (Ne.symm hkey), hg]
      obtain ⟨g', hg', hcurrent, hlimit⟩ := ih hset
      refine ⟨g', hg', hcurrent, hlimit.imp id ?_⟩
      rintro ⟨l, hl, hlimit⟩
      exact ⟨l, mem_cons_of_mem _ hl, hlimit⟩

/-- A stream that connects asks for its limits. -/
theorem referenced_add {gates : Gates} {st : Stream} (hst : st.closing = false) :
    referenced { c with streams := c.streams.add st, gates := gates } key = true ↔
      c.referenced key = true ∨ key ∈ st.gateKeys := by
  have hentries : (c.streams.add st).table.entries = ⟨c.streams.streamIDx, st⟩ :: c.streams.table.entries :=
    AList.entries_insert_of_notMem (AList.lookup_eq_none.1 c.streams.lookup_next)
  simp only [referenced, hentries, any_cons, hst, Bool.not_false, Bool.true_and, Bool.or_eq_true, decide_eq_true_eq]
  exact or_comm

theorem waits_handleAdd {r : WatchJobsRequest} (h : c.Waits) (hm : c.Conserves (.add r)) : (c.handleAdd r).Waits := by
  let limits := limitsOf r
  let c₁ : Connections := { c with
    streams := c.streams.add (.connected r (limits.map (·.1)))
    gates := limits.foldl (fun gates limit => setLimit gates limit.1 limit.2) c.gates }
  have hqueue : ∀ {key req}, req ∈ c₁.queueOf key → req ∈ c.queueOf key := by
    intro key req hreq
    rw [queueOf, (foldl_setLimit_spec limits c.gates).2 key] at hreq
    exact hreq
  refine waits_removeOrphanedGates (c := c₁) (fun key req hreq => h.home key req (hqueue hreq)) ?_
  intro key req hreq href
  have hpending := hqueue hreq
  obtain ⟨k, hk, g, hg, hle⟩ := h.blocked key req hpending
  obtain ⟨hlimits, hdropped⟩ := hm key (mem_of_mem_queueOf hpending) req hpending k hk
  obtain ⟨g', hg', hcurrent, hlimit⟩ := lookup_foldl_setLimit limits hg
  have hlower : c₁.localLimit g' ≤ c.localLimit g := by
    rcases hlimit with hlimit | ⟨limit, hmem, hkey, hlimit⟩
    · exact Nat.le_of_eq (by rw [localLimit, hlimit]; rfl)
    · have := hlimits limit hmem hkey g hg
      rw [localLimit, hlimit]
      exact this
  refine ⟨k, ?_, ⟨g', hg', by omega⟩, (referenced_add rfl).2 (hdropped ((referenced_add rfl).1 href))⟩
  exact Connections.mem_needs.2 ⟨(Connections.mem_needs.1 hk).1, AList.lookup_isSome.1 (by rw [hg']; rfl)⟩

theorem waits_streamStep {m : Move} {i : Nat} {st : Stream} (h : c.Waits) (hst : c.streams.lookup i = some st)
    (hm : (∃ i', m = .down i') → c.Conserves (.down i)) (hs : c.streamStep i st m = some c') : c'.Waits := by
  by_cases hdown : ∃ i', m = .down i'
  · have hcond := hm hdown
    obtain ⟨i', rfl⟩ := hdown
    simp only [streamStep] at hs
    split at hs
    · obtain ⟨hstreams, hapart⟩ :=
        Meter.resolveAll_keeps (c := { c with streams := c.streams.erase i }) st.inflight.entries
      have hresolve := h.sameGates hapart.count hapart.idx hapart.gates
      cases hs
      split
      · next hclosing =>
        refine Waits.sameGates (waits_removeOrphanedGates hresolve.home fun key req hreq href => ?_) rfl rfl rfl
        obtain ⟨k, hk, hfull⟩ := hresolve.blocked key req hreq
        refine ⟨k, hk, hfull, ?_⟩
        rw [referenced, hstreams] at href ⊢
        rw [queueOf, hapart.gates] at hreq
        rw [needs, hapart.gates] at hk
        exact hcond hclosing key (mem_of_mem_queueOf hreq) req hreq k hk href
      · exact hresolve
    · cases hs
  · obtain ⟨-, hapart⟩ := Meter.reading_streamStep (μ := answersOf 0) (fun i heq => hdown ⟨i, heq⟩) hst hs
    exact h.sameGates hapart.count hapart.idx hapart.gates

theorem waits_step {m : Move} (h : c.Waits) (hm : c.Conserves m) (hs : c.step m = some c') : c'.Waits := by
  have hstream : ∀ {i : Nat}, ((∃ i', m = .down i') → c.Conserves (.down i)) →
      ((c.streams.lookup i).bind fun st => c.streamStep i st m) = some c' → c'.Waits := by
    intro i hm hs
    obtain ⟨st, hst, hs⟩ := Option.bind_eq_some_iff.1 hs
    exact waits_streamStep h hst hm hs
  cases m with
  | add req =>
    obtain ⟨-, rfl⟩ := of_guard hs
    exact waits_handleAdd h hm
  | closeStream i =>
    obtain ⟨-, rfl⟩ := of_guard hs
    unfold handleCloseStream
    split
    · exact h
    · exact h.sameGates rfl rfl rfl
  | trigger appId target concurrencyKey pick =>
    obtain ⟨-, rfl⟩ := of_guard hs
    exact waits_handleTriggerRequest (h.sameGates rfl rfl rfl)
  | release n pick =>
    simp only [step] at hs
    split at hs
    · next gateKeys hkeys =>
      obtain ⟨-, rfl⟩ := of_guard hs
      refine waits_handleConcurrencyRelease
        (h.sameGates rfl rfl rfl) fun key req hreq => ?_
      exact hm gateKeys hkeys key (mem_of_mem_queueOf hreq) req hreq
    · cases hs
  | schedulerInfo count idx order pick =>
    obtain ⟨hidle, rfl⟩ := of_guard hs
    exact waits_handleSchedulerInfoUpdate h hidle.2 hm
  | shutdown =>
    obtain ⟨-, rfl⟩ := of_guard hs
    exact h.sameGates rfl rfl rfl
  | finish =>
    obtain ⟨-, rfl⟩ := of_guard hs
    exact ⟨fun key req hreq => absurd hreq not_mem_nil, fun key req hreq => absurd hreq not_mem_nil⟩
  | take | sent | sendFailed | recv => exact hstream (by simp) hs
  | down i => exact hstream (fun _ => hm) hs

/-! ## Whole runs -/

/-- The states that are reached by moves that meet the condition. -/
def Conserved : Connections → Prop := Reachable (· = empty) (Steps Conserves step)

/-- No trigger is pending while there is room for it at every gate that it needs and a stream for it is connected. -/
theorem no_trigger_waits_for_nothing (h : c.Conserved) : ∀ key, ∀ req ∈ c.queueOf key, ¬ c.WaitsForNothing req := by
  have hwaits : c.Waits := by
    refine Reachable.invariant Waits ?_ ?_ h
    · rintro c rfl
      exact ⟨fun key req hreq => absurd hreq not_mem_nil, fun key req hreq => absurd hreq not_mem_nil⟩
    · rintro c c' hc ⟨m, hm, hs⟩
      exact waits_step hc hm hs
  exact fun key req hreq => not_waitsForNothing (hwaits.blocked key req hreq)

instance (c : Connections) : (m : Move) → Decidable (c.Conserves m)
  | .add _ | .schedulerInfo _ _ _ _ => inferInstanceAs (Decidable (∀ key ∈ c.gates.keys, _))
  | .release n _ => inferInstanceAs (Decidable (∀ gateKeys ∈ c.releases[n]?, _))
  | .down _ => inferInstanceAs (Decidable (_ → _))
  | .closeStream _ | .trigger _ _ _ _ | .shutdown | .take _ | .sent _ | .sendFailed _ | .recv _ _ _ | .finish =>
    .isTrue trivial

/-- Three triggers through a gate with a limit of one; the first is answered, the second follows, and the third
still waits. -/
theorem no_trigger_waits_for_nothing_third :
    let go : Move := .trigger "app" (.actor "T") none (fun _ => 0)
    let moves : List Move := [.add ⟨"app", true, ["T"], [⟨1, some "T", none⟩]⟩, go, go, go, .take 0, .sent 0,
      .recv 0 1 true, .release 0 (fun _ => 0)]
    ∃ c req, runFrom step empty moves = some c ∧ req ∈ c.queueOf "T" ∧ req.id = 2 ∧ ¬ c.WaitsForNothing req := by
  intro go moves
  have hrun : (runFrom (guarded Conserves step) empty moves).map (·.queueOf "T") =
      some [⟨2, "app", .actor "T", none⟩] := by decide +kernel
  obtain ⟨c, hc, heq⟩ := Option.map_eq_some_iff.1 hrun
  have hmem : (⟨2, "app", .actor "T", none⟩ : TriggerRequest) ∈ c.queueOf "T" := heq ▸ mem_cons_self
  have hconserved : c.Conserved := reachable_of_guarded (.start rfl) hc
  exact ⟨c, _, runFrom_of_guarded hc, hmem, rfl, no_trigger_waits_for_nothing hconserved "T" _ hmem⟩

/-- A trigger is left pending for nothing when a stream connects that raises the limit, when there are fewer
schedulers and two triggers were pending, and when the stream that asked for a limit of the trigger's group closes. -/
theorem room_without_drain :
    let go : Move := .trigger "app" (.actor "T") none (fun _ => 0)
    let goNamed : Move := .trigger "app" (.actor "T") (some "x") (fun _ => 1)
    let raised : List Move := [.add ⟨"app", true, ["T"], [⟨1, some "T", none⟩]⟩, go, go,
      .add ⟨"app", true, ["T"], [⟨2, some "T", none⟩]⟩]
    let fewer : List Move := [.add ⟨"app", true, ["T"], [⟨3, some "T", none⟩]⟩,
      .schedulerInfo 3 0 ["T"] (fun _ => 0), go, go, go, .schedulerInfo 1 0 ["T"] (fun _ => 0)]
    let dropped : List Move := [.add ⟨"app", true, ["T"], [⟨5, some "T", none⟩]⟩,
      .add ⟨"app", true, ["T"], [⟨1, some "T", some "x"⟩]⟩, goNamed, goNamed, .closeStream 1, .down 1]
    ∀ moves ∈ [raised, fewer, dropped], ((runFrom step empty moves).any fun c =>
      (c.queueOf "T").any fun req => decide (c.WaitsForNothing req)) = true := by
  decide +kernel

end Connections

end Dapr.JobPool
