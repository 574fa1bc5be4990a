import Dapr.Hashing.Rendezvous
import Dapr.SchedulerPlacement.Sidecar
/-!
# Lookups during dissemination

A request for an actor is answered at once if the placement lock is open and no round blocks the
type of the actor. Otherwise it is queued, and answered when the lock opens or the type is unblocked.
When the stream is lost the lock is closed and the tables and blocked types are dropped; queued
requests wait for the next session.

The types that an UNLOCK releases are those of its round. They are blocked no more then, so no other
open round may cover them: a round covers its scope and what its UPDATEs changed.
-/

namespace Dapr.SchedulerPlacement

open Function List

structure LookupActorResponse where
  address : String
  appID : String
  deriving DecidableEq, Repr

/-- Each request has a channel of its own for the response. -/
inductive Request where
  | lookup (response : Nat) (actorType actorID : String)
  | lock (response : Nat) (actorType : String)
  deriving DecidableEq, Repr

def Request.actorType : Request → String
  | .lookup _ actorType _ => actorType
  | .lock _ actorType => actorType

inductive Response where
  | lookup (resolved : Except String LookupActorResponse)
  | lock

/-- A response, with whether the type was blocked when it was sent. -/
structure Answer where
  request : Request
  response : Response
  blocked : Bool

def Inflight.resolve (hash : String → UInt64) (i : Inflight) (actorType actorID : String) :
    Except String LookupActorResponse :=
  let noAddress := s!"did not find address for actor '{actorType}/{actorID}'"
  match i.v2Entries actorType with
  | none => .error noAddress
  | some hosts =>
    match Hashing.Rendezvous.lookup hash (some (Hashing.Rendezvous.new hosts.keys)) actorID with
    | none => .error noAddress
    | some addr => .ok ⟨addr, (hosts.lookup addr).getD ""⟩

def Inflight.respond (hash : String → UInt64) (i : Inflight) : Request → Response
  | .lookup _ actorType actorID => .lookup (i.resolve hash actorType actorID)
  | .lock .. => .lock

/-- The sidecar's disseminator with the requests that it holds back. -/
structure Gate where
  disseminator : Disseminator
  lock : Bool
  queued : List Request
  answered : List Answer
  received : List Request

/-- What the gate of the lookups is given. -/
inductive GateEvent where
  | order (order : Order)
  | request (request : Request)
  /-- The stream is lost, and a new session starts. -/
  | reset

namespace Gate

def new : Gate := ⟨.new, false, [], [], []⟩

def isBlocked (g : Gate) (actorType : String) : Bool := actorType ∈ g.disseminator.inflight.blockedTypes

section Handlers
variable (hash : String → UInt64)

def answerOf (g : Gate) (r : Request) : Answer :=
  ⟨r, g.disseminator.inflight.respond hash r, g.isBlocked r.actorType⟩

def answer (g : Gate) (r : Request) : Gate := { g with answered := g.answered ++ [g.answerOf hash r] }

def flush (g : Gate) (types : String → Bool) : Gate :=
  { (g.queued.filter fun r => types r.actorType).foldl (answer hash) g with
    queued := g.queued.filter fun r => !types r.actorType }

def openLock (g : Gate) : Gate :=
  let g := { g with lock := true }
  g.flush hash fun t => !g.isBlocked t

def acquire (g : Gate) (r : Request) : Gate :=
  let next := { g with received := g.received ++ [r] }
  if g.lock = false ∨ g.isBlocked r.actorType = true then { next with queued := g.queued ++ [r] } else next.answer hash r

def handleOrderV2 (g : Gate) (order : Order) : Gate :=
  let (d, ack) := g.disseminator.handleOpen order
  let next := { g with disseminator := d }
  match order.op, g.disseminator.v2Rounds order.seq with
  -- tables that could not be merged close the stream, without an ack
  | .update, some _ => if ack.isSome then next.openLock hash else next
  | .unlock, some r => if g.lock = true then next.flush hash fun t => t ∈ r.scope ∨ t ∈ r.changed else next
  | _, _ => next

def handleCloseStream (g : Gate) : Gate := { g with disseminator := .new, lock := false }

def handle (g : Gate) : GateEvent → Gate
  | .order o => g.handleOrderV2 hash o
  | .request r => g.acquire hash r
  | .reset => g.handleCloseStream

def run (g : Gate) (events : List GateEvent) : Gate := events.foldl (handle hash) g

end Handlers

end Gate

/-! ## Blocked types -/

/-- The round locks the type. -/
def V2Round.Covers (r : V2Round) (t : String) : Prop := t ∈ r.scope ∨ t ∈ r.changed

instance (r : V2Round) (t : String) : Decidable (r.Covers t) := inferInstanceAs (Decidable (_ ∨ _))

namespace Disseminator

variable {d d' : Disseminator} {o : Order}

/-- The blocked types are those that an open round covers. -/
def BlocksCovered (d : Disseminator) : Prop :=
  ∀ t, t ∈ d.inflight.blockedTypes ↔ ∃ seq r, d.v2Rounds seq = some r ∧ r.Covers t

/-- Moreover, no two open rounds cover the same type. -/
structure Exact (d : Disseminator) : Prop where
  blocked : d.BlocksCovered
  apart : ∀ seq seq' r r' t, d.v2Rounds seq = some r → d.v2Rounds seq' = some r' → r.Covers t → r'.Covers t → seq = seq'

/-- No open round but the one with the given number covers any of the types. -/
def Apart (d : Disseminator) (seq : Nat) (types : List String) : Prop :=
  ∀ seq' r, seq' ≠ seq → d.v2Rounds seq' = some r → ∀ t ∈ types, ¬r.Covers t

/-- A LOCK opens a round that was not open, and what a round covers no other open round does. -/
def Allows (d : Disseminator) (o : Order) : Prop :=
  match o.op with
  | .lock => d.v2Rounds o.seq = none ∧ d.Apart o.seq o.scope
  | .update => ∀ changed, (d.inflight.merge o.tables o.versions).2 = .ok changed → d.Apart o.seq changed
  | .unlock => True

theorem exact_new : Exact .new := by
  constructor <;> simp [new, Inflight.new, BlocksCovered]

theorem Exact.congr (h : d.Exact) (hrounds : d'.v2Rounds = d.v2Rounds)
    (hblocked : d'.inflight.blockedTypes = d.inflight.blockedTypes) : d'.Exact := by
  constructor
  · unfold BlocksCovered
    rw [hrounds, hblocked]
    exact h.blocked
  · rw [hrounds]
    exact h.apart

/-- A round comes to cover more types. -/
theorem Exact.extend (h : d.Exact) {seq : Nat} {r' : V2Round} {types : List String}
    (hrounds : d'.v2Rounds = update d.v2Rounds seq (some r'))
    (hblocked : ∀ t, t ∈ d'.inflight.blockedTypes ↔ t ∈ types ∨ t ∈ d.inflight.blockedTypes)
    (hcovers : ∀ t, r'.Covers t ↔ t ∈ types ∨ ∃ r, d.v2Rounds seq = some r ∧ r.Covers t) (hapart : d.Apart seq types) :
    d'.Exact := by
  -- another round was open before, and covers none of the types
  have hother : ∀ seq' r, seq' ≠ seq → d'.v2Rounds seq' = some r → d.v2Rounds seq' = some r ∧ ∀ t ∈ types, ¬r.Covers t := by
    intro seq' r hne hr
    rw [hrounds, update_of_ne hne] at hr
    exact ⟨hr, hapart seq' r hne hr⟩
  have hself : ∀ r, d'.v2Rounds seq = some r → r = r' := by
    intro r hr
    rw [hrounds, update_self] at hr
    exact (Option.some.inj hr).symm
  -- so it shares nothing with the round that grew
  have hshare : ∀ seq' r t, seq' ≠ seq → d'.v2Rounds seq' = some r → r.Covers t → ¬r'.Covers t := by
    intro seq' r t hne hr hc hc'
    obtain ⟨hold, hnot⟩ := hother seq' r hne hr
    rcases (hcovers t).1 hc' with hnew | ⟨r₀, hr₀, hc₀⟩
    · exact hnot t hnew hc
    · exact hne (h.apart _ _ _ _ t hold hr₀ hc hc₀)
  constructor
  · intro t
    rw [hblocked, h.blocked]
    constructor
    · rintro (hnew | ⟨seq', r, hr, hc⟩)
      · exact ⟨seq, r', by rw [hrounds, update_self], (hcovers t).2 (.inl hnew)⟩
      · by_cases hseq : seq' = seq
        · subst hseq
          exact ⟨seq', r', by rw [hrounds, update_self], (hcovers t).2 (.inr ⟨r, hr, hc⟩)⟩
        · exact ⟨seq', r, by rwa [hrounds, update_of_ne hseq], hc⟩
    · rintro ⟨seq', r, hr, hc⟩
      by_cases hseq : seq' = seq
      · subst hseq
        rw [hself r hr] at hc
        exact ((hcovers t).1 hc).imp_right fun ⟨r₀, hr₀, hc₀⟩ => ⟨seq', r₀, hr₀, hc₀⟩
      · exact .inr ⟨seq', r, (hother seq' r hseq hr).1, hc⟩
  · intro seq₁ seq₂ r₁ r₂ t hr₁ hr₂ hc₁ hc₂
    by_cases h₁ : seq₁ = seq
    · by_cases h₂ : seq₂ = seq
      · exact h₁.trans h₂.symm
      · subst h₁
        rw [hself r₁ hr₁] at hc₁
        exact absurd hc₁ (hshare seq₂ r₂ t h₂ hr₂ hc₂)
    · by_cases h₂ : seq₂ = seq
      · subst h₂
        rw [hself r₂ hr₂] at hc₂
        exact absurd hc₂ (hshare seq₁ r₁ t h₁ hr₁ hc₁)
      · exact h.apart _ _ _ _ t (hother _ _ h₁ hr₁).1 (hother _ _ h₂ hr₂).1 hc₁ hc₂

theorem Exact.finish (h : d.Exact) {seq : Nat} {r : V2Round} (hr : d.v2Rounds seq = some r)
    (hrounds : d'.v2Rounds = update d.v2Rounds seq none)
    (hblocked : ∀ t, t ∈ d'.inflight.blockedTypes ↔ t ∈ d.inflight.blockedTypes ∧ ¬r.Covers t) : d'.Exact := by
  have hold : ∀ seq' r', d'.v2Rounds seq' = some r' ↔ seq' ≠ seq ∧ d.v2Rounds seq' = some r' := by
    intro seq' r'
    by_cases hseq : seq' = seq
    · subst hseq
      simp [hrounds]
    · simp [hrounds, hseq]
  constructor
  · intro t
    rw [hblocked, h.blocked]
    constructor
    · rintro ⟨⟨seq', r', hr', hc⟩, hnot⟩
      refine ⟨seq', r', (hold seq' r').2 ⟨?_, hr'⟩, hc⟩
      rintro rfl
      rw [hr, Option.some_inj] at hr'
      exact hnot (hr' ▸ hc)
    · rintro ⟨seq', r', hr', hc⟩
      obtain ⟨hne, hr'⟩ := (hold seq' r').1 hr'
      exact ⟨⟨seq', r', hr', hc⟩, fun hc' => hne (h.apart _ _ _ _ t hr' hr hc hc')⟩
  · intro seq₁ seq₂ r₁ r₂ t hr₁ hr₂
    exact h.apart _ _ _ _ t ((hold _ _).1 hr₁).2 ((hold _ _).1 hr₂).2

theorem blocked_unlock (hop : o.op = .unlock) {r : V2Round} (hr : d.v2Rounds o.seq = some r) (t : String) :
    t ∈ (d.handleOpen o).1.inflight.blockedTypes ↔ t ∈ d.inflight.blockedTypes ∧ ¬r.Covers t := by
  simp only [Disseminator.handleOpen, hop, hr, Inflight.unlockTypes, mem_filter, mem_append, decide_eq_true_eq,
    V2Round.Covers]
  tauto

/-- Nothing else unblocks a type. -/
theorem blocked_of_blocked (hop : o.op ≠ .unlock ∨ d.v2Rounds o.seq = none) {t : String}
    (ht : t ∈ d.inflight.blockedTypes) : t ∈ (d.handleOpen o).1.inflight.blockedTypes := by
  unfold Disseminator.handleOpen
  cases hcase : o.op with
  | lock =>
    dsimp only
    split
    · exact ht
    · exact mem_union_iff.2 (.inr ht)
  | update =>
    cases hr : d.v2Rounds o.seq with
    | none =>
      dsimp only
      split <;> exact ht
    | some r =>
      have hm := d.inflight.merged_merge o.tables o.versions
      dsimp only
      split
      · next i err heq =>
        rw [heq] at hm
        exact hm.blockedTypes ▸ ht
      · next i changed heq =>
        rw [heq] at hm
        exact mem_union_iff.2 (.inr (hm.blockedTypes ▸ ht))
  | unlock =>
    rw [hop.resolve_left fun hne => hne hcase]
    dsimp only
    split <;> exact ht

theorem Exact.handleOpen (h : d.Exact) (ho : d.Allows o) : (d.handleOpen o).1.Exact := by
  have hunlock := fun hop r => blocked_unlock (d := d) (o := o) (r := r) hop
  unfold Allows at ho
  unfold Disseminator.handleOpen at hunlock ⊢
  cases hop : o.op with
  | lock =>
    simp only [hop] at ho
    refine h.extend rfl (fun t => ?_) (fun t => ?_) ho.2
    · dsimp only
      split
      · simp [*]
      · simp [Inflight.lockTypes]
    · simp [V2Round.Covers, ho.1]
  | update =>
    simp only [hop] at ho
    cases hr : d.v2Rounds o.seq with
    | none =>
      dsimp only
      split
      · exact h
      · exact h.congr rfl rfl
    | some r =>
      have hm := d.inflight.merged_merge o.tables o.versions
      dsimp only
      split
      · next i err heq =>
        rw [heq] at hm
        exact h.congr rfl hm.blockedTypes
      · next i changed heq =>
        rw [heq] at hm ho
        have hkept : i.blockedTypes = d.inflight.blockedTypes := hm.blockedTypes
        refine h.extend rfl (fun t => ?_) (fun t => ?_) (ho changed rfl)
        · simp [Inflight.lockTypes, hkept]
        · simp only [V2Round.Covers, hr, mem_union_iff, Option.some_inj, exists_eq_left']
          tauto
  | unlock =>
    cases hr : d.v2Rounds o.seq with
    | none =>
      dsimp only
      split
      · exact h
      · exact h.congr rfl rfl
    | some r =>
      have hblocked := hunlock hop r hr
      rw [hop, hr] at hblocked
      exact h.finish hr rfl hblocked

end Disseminator

/-! ## Requests -/

namespace Gate

open Lib.Runs
open scoped List

variable {hash : String → UInt64} {g : Gate}

/-- What waits is held back by the lock or its type, what was answered was not, and each request is either. -/
structure Served (g : Gate) : Prop where
  waiting : ∀ r ∈ g.queued, g.isBlocked r.actorType = true ∨ g.lock = false
  unblocked : ∀ a ∈ g.answered, a.blocked = false
  accounted : g.queued ++ g.answered.map Answer.request ~ g.received

/-- The answers to several requests. -/
theorem foldl_answer (g : Gate) (rs : List Request) :
    rs.foldl (answer hash) g = { g with answered := g.answered ++ rs.map (g.answerOf hash) } := by
  induction rs generalizing g with
  | nil => simp
  | cons r rs ih =>
    have hsame : (g.answer hash r).answerOf hash = g.answerOf hash := rfl
    rw [foldl_cons, ih, hsame]
    simp [answer]

theorem flush_eq (g : Gate) (types : String → Bool) : g.flush hash types =
    { g with
      queued := g.queued.filter fun r => !types r.actorType
      answered := g.answered ++ (g.queued.filter fun r => types r.actorType).map (g.answerOf hash) } := by
  rw [flush, foldl_answer]

/-- The requests for types that are not blocked are answered; those left wait as before. -/
theorem served_flush {types : String → Bool} (hfree : ∀ t, types t = true → g.isBlocked t = false)
    (hwaiting : ∀ r ∈ g.queued, types r.actorType = false → g.isBlocked r.actorType = true ∨ g.lock = false)
    (hunblocked : ∀ a ∈ g.answered, a.blocked = false)
    (haccounted : g.queued ++ g.answered.map Answer.request ~ g.received) : (g.flush hash types).Served := by
  rw [flush_eq]
  refine ⟨fun r hr => ?_, fun a ha => ?_, ?_⟩
  · obtain ⟨hmem, hnot⟩ := mem_filter.1 hr
    exact hwaiting r hmem (by simpa using hnot)
  · rcases mem_append.1 ha with hold | hnew
    · exact hunblocked a hold
    · obtain ⟨r, hr, rfl⟩ := mem_map.1 hnew
      exact hfree _ (mem_filter.1 hr).2
  · -- the answered part of the queue moves behind what was answered before
    refine Perm.trans ?_ haccounted
    have hsplit := filter_append_perm (fun r : Request => types r.actorType) g.queued
    have hrequests : ∀ rs : List Request, (rs.map (g.answerOf hash)).map Answer.request = rs := fun rs => by
      simp [comp_def, answerOf]
    rw [map_append, hrequests]
    calc (g.queued.filter fun r => !types r.actorType) ++
          (g.answered.map Answer.request ++ g.queued.filter fun r => types r.actorType)
      _ ~ (g.answered.map Answer.request ++ g.queued.filter fun r => types r.actorType) ++
          g.queued.filter fun r => !types r.actorType := perm_append_comm
      _ ~ g.answered.map Answer.request ++ g.queued := by
        rw [append_assoc]
        exact hsplit.append_left _
      _ ~ g.queued ++ g.answered.map Answer.request := perm_append_comm

theorem Served.openLock (h : g.Served) : (g.openLock hash).Served := by
  unfold Gate.openLock
  refine served_flush (fun t ht => ?_) (fun r _ hblocked => .inl ?_) h.unblocked h.accounted
  · simpa using ht
  · simpa using hblocked

theorem Served.acquire (h : g.Served) (r : Request) : (g.acquire hash r).Served := by
  have hnew : r :: (g.queued ++ g.answered.map Answer.request) ~ g.received ++ [r] :=
    (h.accounted.cons r).trans (perm_append_singleton _ _).symm
  unfold Gate.acquire
  dsimp only
  split
  · next hheld =>
    refine ⟨forall_mem_concat h.waiting hheld.symm, h.unblocked, Perm.trans ?_ hnew⟩
    rw [append_assoc]
    exact perm_middle
  · next hfree =>
    rw [not_or, Bool.not_eq_true] at hfree
    refine ⟨h.waiting, forall_mem_concat h.unblocked hfree.2, Perm.trans ?_ hnew⟩
    simp only [answer, map_append, ← append_assoc]
    exact perm_append_singleton _ _

theorem Served.handleOrderV2 (h : g.Served) (o : Order) : (g.handleOrderV2 hash o).Served := by
  have hnext : o.op ≠ .unlock ∨ g.disseminator.v2Rounds o.seq = none →
      Served { g with disseminator := (g.disseminator.handleOpen o).1 } := fun hop =>
    { h with waiting := fun r hr => (h.waiting r hr).imp_left fun hb =>
        decide_eq_true (Disseminator.blocked_of_blocked hop (of_decide_eq_true hb)) }
  unfold Gate.handleOrderV2
  dsimp only
  split
  · next hop _ =>
    have hserved := hnext (.inl (by simp [hop]))
    split
    · exact hserved.openLock
    · exact hserved
  · next r hop hr =>
    -- the types that stay blocked are those the round does not cover
    have hblocked := fun t => Disseminator.blocked_unlock hop hr t
    split
    · next hlock =>
      refine served_flush (fun t ht => ?_) (fun r' hr' hnot => .inl ?_) h.unblocked
        h.accounted
      · exact decide_eq_false fun hb => ((hblocked t).1 hb).2 (of_decide_eq_true ht)
      · have hheld := (h.waiting r' hr').resolve_right (by simp [hlock])
        exact decide_eq_true ((hblocked _).2 ⟨of_decide_eq_true hheld, of_decide_eq_false hnot⟩)
    · next hlock => exact { h with waiting := fun _ _ => .inr (by simpa using hlock) }
  · next hupdate hunlock =>
    refine hnext (or_iff_not_imp_left.2 fun hop => ?_)
    rw [not_not] at hop
    exact Option.eq_none_iff_forall_ne_some.2 fun r hr => hunlock r hop hr

theorem Served.handle (h : g.Served) (e : GateEvent) : (g.handle hash e).Served := by
  cases e with
  | order o => exact h.handleOrderV2 o
  | request r => exact h.acquire r
  | reset => exact ⟨fun _ _ => .inr rfl, h.unblocked, h.accounted⟩

/-! ## Sessions -/

theorem disseminator_flush (g : Gate) (types : String → Bool) : (g.flush hash types).disseminator = g.disseminator := by
  rw [flush_eq]

theorem disseminator_handleOrderV2 (g : Gate) (o : Order) :
    (g.handleOrderV2 hash o).disseminator = (g.disseminator.handleOpen o).1 := by
  unfold handleOrderV2
  dsimp only
  split
  · split
    · exact disseminator_flush _ _
    · rfl
  · split
    · exact disseminator_flush _ _
    · rfl
  · rfl

theorem disseminator_acquire (g : Gate) (r : Request) : (g.acquire hash r).disseminator = g.disseminator := by
  unfold acquire
  dsimp only
  split <;> rfl

/-- Each order is one that the sidecar allows where it comes. -/
def Orderly (hash : String → UInt64) (g : Gate) : List GateEvent → Prop
  | [] => True
  | e :: events => (∀ o, e = .order o → g.disseminator.Allows o) ∧ Orderly hash (g.handle hash e) events

theorem exact_run (events : List GateEvent) (h : g.disseminator.Exact) (hok : g.Orderly hash events) :
    (g.run hash events).disseminator.Exact := by
  induction events generalizing g with
  | nil => exact h
  | cons e events ih =>
    refine ih ?_ hok.2
    cases e with
    | order o =>
      show (g.handleOrderV2 hash o).disseminator.Exact
      rw [disseminator_handleOrderV2]
      exact h.handleOpen (hok.1 o rfl)
    | request r =>
      show (g.acquire hash r).disseminator.Exact
      rw [disseminator_acquire]
      exact h
    | reset => exact Disseminator.exact_new

/-- After any orders, requests and resets a request that waits is held back by its type or the lock, every answer was sent
while the type was not blocked, and each request was answered once or waits. If the open rounds always covered different
types, the blocked types are exactly those that an open round covers. -/
theorem lookups_blocked (hash : String → UInt64) (events : List GateEvent) :
    let g := new.run hash events
    (new.Orderly hash events → g.disseminator.BlocksCovered) ∧ (∀ a ∈ g.answered, a.blocked = false) ∧
      (∀ r ∈ g.queued, r.actorType ∈ g.disseminator.inflight.blockedTypes ∨ g.lock = false) ∧
      g.queued ++ g.answered.map Answer.request ~ g.received := by
  have hserved : ∀ (g : Gate), g.Served → (g.run hash events).Served := by
    induction events with
    | nil => exact fun g h => h
    | cons e events ih => exact fun g h => ih _ (h.handle e)
  obtain ⟨hwaiting, hunblocked, haccounted⟩ := hserved new ⟨by simp [new], by simp [new], .refl _⟩
  refine ⟨fun hok => ?_, hunblocked, fun r hr => (hwaiting r hr).imp_left of_decide_eq_true, haccounted⟩
  exact (exact_run events Disseminator.exact_new hok).blocked

def oneHost (t : String) : PlacementTables := ⟨.rendezvous, [(t, AList.insert "10.0.0.1:3500" "shop" ∅)]⟩

/-- The orders of a round over some types with a table for one type. -/
def roundOf (seq : Nat) (scope : List String) (t : String) : List GateEvent :=
  [.order (.lock seq scope), .order (.update seq scope [(t, 1)] (oneHost t)), .order (.unlock seq scope)]

/-- A lookup of a type that a round holds waits while another round comes and goes. -/
def sideBySide : List GateEvent :=
  [.order (.lock 1 ["cart"]), .request (.lookup 0 "cart" "a")] ++ roundOf 2 ["page"] "page"

theorem sideBySide_orderly : new.Orderly (fun _ => 0) sideBySide := by
  -- the first round is the only other one
  have hfirst : ∀ d : Disseminator, (∀ seq, seq ≠ 2 → d.v2Rounds seq = update (fun _ => none) 1
      (some ⟨["cart"], []⟩) seq) → ∀ types, "cart" ∉ types → d.Apart 2 types := by
    intro d hd types hnot seq r hne hr t ht hc
    rw [hd seq hne] at hr
    by_cases hseq : seq = 1
    · subst hseq
      rw [update_self, Option.some_inj] at hr
      subst hr
      simp [V2Round.Covers] at hc
      exact hnot (hc ▸ ht)
    · rw [update_of_ne hseq] at hr
      cases hr
  refine ⟨?_, ?_, ?_, ?_, ?_, trivial⟩
  · rintro _ ⟨⟩
    exact ⟨rfl, nofun⟩
  · rintro o ⟨⟩
  · rintro _ ⟨⟩
    exact ⟨rfl, hfirst _ (fun seq _ => rfl) _ (by decide)⟩
  · rintro _ ⟨⟩ changed hchanged
    refine hfirst _ (fun seq hne => ?_) _ ?_
    · exact update_of_ne hne _ _
    · intro hin
      have hentry := (Inflight.merged_merge _ _ _).changed changed hchanged "cart" hin
      simp [oneHost, Order.update] at hentry
  · rintro _ ⟨⟩
    trivial

theorem lookups_blocked_cart :
    (new.run (fun _ => 0) sideBySide).queued = [.lookup 0 "cart" "a"] ∧ (new.run (fun _ => 0) sideBySide).lock = true ∧
      (new.run (fun _ => 0) sideBySide).disseminator.BlocksCovered :=
  ⟨by decide +kernel, by decide +kernel, (lookups_blocked (fun _ => 0) sideBySide).1 sideBySide_orderly⟩

/-- A type is unblocked while a round with that scope is open, by an UPDATE of another round or of a snapshot that changed
it. A LOCK with the number of an open round leaves the types of that round blocked. -/
theorem other_round_unblocks :
    ¬(new.run (fun _ => 0) (.order (.lock 1 ["cart"]) :: roundOf 2 ["page"] "cart")).disseminator.BlocksCovered ∧
    ¬(new.run (fun _ => 0) (.order (.lock 1 ["cart"]) :: roundOf 2 [] "cart")).disseminator.BlocksCovered ∧
    ¬(new.run (fun _ => 0) [.order (.lock 1 ["cart"]), .order (.lock 1 ["page"])]).disseminator.BlocksCovered := by
  refine ⟨fun h => ?_, fun h => ?_, fun h => ?_⟩
  · have hblocked := (h "cart").2 ⟨1, ⟨["cart"], []⟩, rfl, by decide⟩
    revert hblocked
    decide +kernel
  · have hblocked := (h "cart").2 ⟨1, ⟨["cart"], []⟩, rfl, by decide⟩
    revert hblocked
    decide +kernel
  · obtain ⟨seq, r, hr, hc⟩ := (h "cart").1 (by decide +kernel)
    have hr : update (update (fun _ => none) 1 (some ⟨["cart"], []⟩)) 1 (some ⟨["page"], []⟩) seq =
        some r := hr
    rw [update_idem] at hr
    by_cases hseq : seq = 1
    · subst hseq
      rw [update_self, Option.some_inj] at hr
      subst hr
      simp [V2Round.Covers] at hc
    · rw [update_of_ne hseq] at hr
      cases hr

end Gate

end Dapr.SchedulerPlacement
