import Dapr.Lib.Runs
import Dapr.Workflow.Rendezvous
import Mathlib.Algebra.GroupWithZero.Nat
/-!
# Accepted completions

What becomes of the completions that an executor actor accepted. As long as no claim and no
retirement comes between a watch's receive and its section under the mutex, no claim takes a copy, and an
actor retires only with completions that may still be handed off and copies that may not, each one is
accounted for in one way.

A completion may move from the channel over a watch's hand to the displaced slot. It is lost there
only to a later one of its type, because what is displaced is older than what is in the hand, and
that is older than what is in the channel.
-/

namespace Dapr.Workflow.Rendezvous

open Lib.Runs List

namespace Executor

/-! ## What is held -/

/-- The completion that a watch took off the channel. -/
def hand (s : Executor) : Option Parked :=
  match s.watch with
  | some ⟨_, .received d⟩ => some d
  | _ => none

/-- The same, if it is of the other type. -/
def wrongHand (s : Executor) : Option Parked :=
  match s.watch with
  | some ⟨watchType, .received d⟩ => if Watch.forWatcher ⟨watchType, .received d⟩ d then none else some d
  | _ => none

/-- What the actor holds: once it is closed nobody looks at its slots again. -/
def held (s : Executor) : List Parked :=
  (if s.closeCh then [] else s.completeCh.toList ++ s.displaced.toList) ++ s.hand.toList ++ s.drained

/-- The ways in which a completion is accounted for, copies apart. -/
def waysOf (s : Executor) (id : Nat) : List Way :=
  (s.held.filter fun d => !d.copy && d.id = id).map (fun _ => .held) ++ (s.ledger.filter (·.1 = id)).map (·.2)

/-- What a claim returns: the displaced completion before the one in the channel. -/
def forClaim (s : Executor) (t : TaskType) : Option Parked :=
  (s.displaced.filter (·.taskType = t)).or (s.completeCh.filter (·.taskType = t))

/-- What is asked of a move: no claim and no retirement comes between a watch's receive of a completion
of the other type and the watch's section under the mutex; no claim takes a copy; and an actor retires
only while all that it holds may be handed off but the copies, and no copy may. -/
def Meets (s : Executor) : Move → Prop
  | .claim t => s.wrongHand = none ∧ ∀ d ∈ s.forClaim t, d.copy = false
  | .deactivate => s.wrongHand = none ∧ ∀ d ∈ s.displaced.toList ++ s.completeCh.toList,
      (nextHandoff d.toCompletion).isSome = !d.copy
  | _ => True

end Executor

/-! ## What is accounted for -/

/-- What is written about it unless it is a copy. -/
def Parked.entry (d : Parked) (way : Way) : List (Nat × Way) := if d.copy then [] else [(d.id, way)]

/-- How often it counts for a number. -/
def Parked.weighs (d : Parked) (id : Nat) : Nat := if d.copy = false ∧ d.id = id then 1 else 0

/-- It was accepted earlier, if it is one that may be lost to the other. -/
def Parked.Before (o d : Parked) : Prop := o.copy = false → o.taskType = d.taskType → o.id < d.id

/-- What matters of the actor's state: where the completions are and what was written about them. -/
structure Stock where
  completeCh : Option Parked
  displaced : Option Parked
  hand : Option Parked
  wrongHand : Option Parked
  drained : List Parked
  accepted : List TaskType
  ledger : List (Nat × Way)
  copied : List Nat
  closed : Bool

def Executor.stock (s : Executor) : Stock :=
  ⟨s.completeCh, s.displaced, s.hand, s.wrongHand, s.drained, s.accepted, s.ledger, s.copied, s.closeCh⟩

namespace Stock

/-- It is somewhere in the actor. -/
def Has (k : Stock) (d : Parked) : Prop := d ∈ k.completeCh ∨ d ∈ k.displaced ∨ d ∈ k.hand ∨ d ∈ k.drained

/-- All that is somewhere in the actor. -/
def items (k : Stock) : List Parked := k.completeCh.toList ++ k.displaced.toList ++ k.hand.toList ++ k.drained

/-- There may be copies of what the ledger says so of. -/
def Copied (k : Stock) (id : Nat) : Prop := (id, .delivered) ∈ k.ledger ∨ (id, .claimed) ∈ k.ledger

/-- Each accepted completion counts once. -/
structure Tally (k : Stock) : Prop where
  counted : ∀ id, (k.items.map (·.weighs id)).sum + k.ledger.countP (·.1 = id) = if id < k.accepted.length then 1 else 0
  known : ∀ d, k.Has d → k.accepted[d.id]? = some d.taskType ∧ (d.copy = true → k.Copied d.id)
  copied : ∀ id ∈ k.copied, k.Copied id
  later : ∀ id id', (id, .replaced id') ∈ k.ledger → id < id' ∧ k.accepted[id]? = k.accepted[id']?

/-- What is in the displaced slot is older than what a watch has in hand for it, and that is older than
what is in the channel. -/
structure Inv (k : Stock) : Prop extends Tally k where
  ofHand : ∀ d ∈ k.wrongHand, d ∈ k.hand
  channel : ∀ o ∈ k.displaced, ∀ d ∈ k.completeCh, o.Before d
  handAfter : ∀ o ∈ k.displaced, ∀ d ∈ k.wrongHand, o.Before d
  handBefore : ∀ o ∈ k.wrongHand, ∀ d ∈ k.completeCh, o.Before d
  closed : k.closed = true → (∀ d ∈ k.completeCh, d.copy = true) ∧ (∀ d ∈ k.displaced, d.copy = true) ∧
    ∀ d ∈ k.wrongHand, d.copy = true
  movable : ∀ d ∈ k.drained, (nextHandoff d.toCompletion).isSome = !d.copy
  undrained : k.closed = false → k.drained = []

variable {k k' : Stock} {d : Parked} {id : Nat} {way : Way}

theorem inv_fresh : Executor.fresh.stock.Inv := by
  constructor
  · constructor <;> simp [Executor.fresh, Executor.stock, items, Has, Executor.hand]
  all_goals simp [Executor.fresh, Executor.stock, Executor.hand, Executor.wrongHand]

theorem mem_items : d ∈ k.items ↔ k.Has d := by simp [items, Has]

/-- What is written about a completion counts as often as it did. -/
@[simp] theorem countP_entry : (d.entry way).countP (·.1 = id) = d.weighs id := by
  unfold Parked.entry Parked.weighs
  cases d.copy
  · by_cases h : d.id = id <;> simp
  · simp

theorem entry_eq (h : d.copy = false) : d.entry way = [(d.id, way)] := by simp [Parked.entry, h]

theorem mem_entry {e : Nat × Way} (h : e ∈ d.entry way) : d.copy = false ∧ e = (d.id, way) := by
  unfold Parked.entry at h
  cases hc : d.copy <;> simp_all

/-- The ledger is only added to. -/
theorem Copied.append {l : List (Nat × Way)} (h : k.Copied id) (hledger : k'.ledger = k.ledger ++ l) : k'.Copied id := by
  unfold Copied
  rw [hledger]
  exact h.imp (mem_append_left _) (mem_append_left _)

/-! ## What is accepted -/

/-- Growing the list of accepted completions keeps the types known so far. -/
theorem getElem?_accepted {t t' : TaskType} {n : Nat} (h : k.accepted[n]? = some t) :
    (k.accepted ++ [t'])[n]? = some t := by
  rw [getElem?_append_left (List.getElem?_eq_some_iff.1 h).1, h]

theorem Tally.id_lt (h : k.Tally) (hd : k.Has d) : d.id < k.accepted.length :=
  (List.getElem?_eq_some_iff.1 (h.known d hd).1).1

theorem Tally.not_recorded (h : k.Tally) (hid : k.accepted.length ≤ id) : k.ledger.countP (·.1 = id) = 0 := by
  have := h.counted id
  rw [if_neg (by omega)] at this
  omega

/-- One more is accepted, and the count of its id is one more. -/
theorem counted_accept {n m : Nat} (hc : m = if id < n then 1 else 0) :
    m + (if n = id then 1 else 0) = if id < n + 1 then 1 else 0 := by
  by_cases hid : n = id
  · rw [if_neg (by omega)] at hc
    rw [if_pos hid, if_pos (by omega), hc]
  · rw [if_neg hid, hc]
    exact if_congr (by omega) rfl rfl

/-- A replacement in the ledger stays right when more is accepted. -/
theorem Tally.later_accept (h : k.Tally) {t : TaskType} {id id' : Nat} (hmem : (id, .replaced id') ∈ k.ledger) :
    id < id' ∧ (k.accepted ++ [t])[id]? = (k.accepted ++ [t])[id']? := by
  obtain ⟨hlt, heq⟩ := h.later id id' hmem
  have hid : id < k.accepted.length := by
    refine Nat.lt_of_not_le fun hge => ?_
    exact countP_eq_zero.1 (h.not_recorded hge) _ hmem (by simp)
  have hsome : k.accepted[id]? = some (k.accepted.get ⟨id, hid⟩) := List.getElem?_eq_getElem hid
  refine ⟨hlt, ?_⟩
  rw [getElem?_accepted hsome, getElem?_accepted (heq ▸ hsome)]

theorem Inv.park (h : k.Inv) (hfree : k.completeCh = none) (hopen : k.closed = false) (c : Completion) :
    Inv { k with completeCh := some ⟨c, k.accepted.length, false⟩, accepted := k.accepted ++ [c.taskType] } := by
  refine { h with
    counted := fun id => ?_, known := ?_, later := fun id id' => h.later_accept, channel := ?_
    handBefore := ?_, closed := fun hclosed => ?_ }
  · have hnew := counted_accept (h.counted id)
    simp [items, hfree, Parked.weighs] at hnew ⊢
    omega
  · rintro d (hd | hd)
    · cases hd
      simp
    · obtain ⟨htype, hcopies⟩ := h.known d (.inr hd)
      exact ⟨getElem?_accepted htype, hcopies⟩
  · rintro o ho d hd hcopy -
    cases hd
    exact h.id_lt (.inr (.inl ho))
  · rintro o ho d hd hcopy -
    cases hd
    exact h.id_lt (.inr (.inr (.inl (h.ofHand o ho))))
  · rw [hopen] at hclosed
    cases hclosed

theorem Inv.deliver (h : k.Inv) (t : TaskType) :
    Inv { k with accepted := k.accepted ++ [t], ledger := k.ledger ++ [(k.accepted.length, .delivered)] } := by
  refine { h with
    counted := fun id => ?_, known := fun d hd => ?_, copied := fun id hid => (h.copied id hid).append rfl, later := ?_ }
  · have hnew := counted_accept (h.counted id)
    simp only [countP_append, countP_singleton, length_append, length_singleton, decide_eq_true_eq]
    rwa [← Nat.add_assoc]
  · obtain ⟨htype, hcopies⟩ := h.known d hd
    exact ⟨getElem?_accepted htype, fun hcopy => (hcopies hcopy).append rfl⟩
  · intro id id' hmem
    rcases mem_append.1 hmem with hmem | hmem
    · exact h.later_accept hmem
    · simp at hmem

theorem Inv.parkCopy (h : k.Inv) (hfree : k.completeCh = none) (hcopy : d.copy = true) (hcopied : k.Copied d.id)
    (htype : k.accepted[d.id]? = some d.taskType) (hdis : ∀ o ∈ k.displaced, o.Before d)
    (hwrong : ∀ o ∈ k.wrongHand, o.Before d) : Inv { k with completeCh := some d } := by
  refine { h with
    counted := fun id => ?_, known := ?_, channel := ?_, handBefore := ?_
    closed := fun hclosed => ⟨?_, (h.closed hclosed).2⟩ }
  · simpa [items, hfree, Parked.weighs, hcopy] using h.counted id
  · rintro d' (hd | hd)
    · cases hd
      exact ⟨htype, fun _ => hcopied⟩
    · exact h.known d' (.inr hd)
  · rintro o ho d' hd
    cases hd
    exact hdis o ho
  · rintro o ho d' hd
    cases hd
    exact hwrong o ho
  · rintro d' hd
    cases hd
    exact hcopy

/-! ## What is moved and taken -/

/-- Something leaves the slots, and what becomes of it is written down. -/
theorem Tally.flow (h : k.Tally) (gone : List Parked) (l : List (Nat × Way)) (hperm : k.items.Perm (gone ++ k'.items))
    (hl : ∀ id, l.countP (·.1 = id) = (gone.map (·.weighs id)).sum) (hacc : k'.accepted = k.accepted)
    (hledger : k'.ledger = k.ledger ++ l) (hcopied : k'.copied = k.copied)
    (hlater : ∀ id id', (id, .replaced id') ∈ l → id < id' ∧ k.accepted[id]? = k.accepted[id']?) : k'.Tally := by
  refine ⟨fun id => ?_, fun d hd => ?_, fun id hid => (h.copied id (hcopied ▸ hid)).append hledger, ?_⟩
  · have hc := h.counted id
    rw [(hperm.map _).sum_nat, map_append, sum_append] at hc
    rw [hacc, hledger, countP_append, hl]
    omega
  · have hhas := mem_items.1 (hperm.symm.subset (mem_append_right _ (mem_items.2 hd)))
    obtain ⟨htype, hcopies⟩ := h.known d hhas
    exact ⟨hacc ▸ htype, fun hcopy => (hcopies hcopy).append hledger⟩
  · rw [hacc, hledger]
    exact fun id id' hmem => (mem_append.1 hmem).elim (h.later id id') (hlater id id')

theorem Tally.move (h : k.Tally) (hperm : k.items.Perm k'.items) (hacc : k'.accepted = k.accepted)
    (hledger : k'.ledger = k.ledger) (hcopied : k'.copied = k.copied) : k'.Tally :=
  h.flow [] [] hperm (fun _ => rfl) hacc (hledger.trans (append_nil _).symm) hcopied (nofun)

theorem Tally.take (h : k.Tally) (way : Way) (hperm : k.items.Perm (d :: k'.items)) (hacc : k'.accepted = k.accepted)
    (hledger : k'.ledger = k.ledger ++ d.entry way) (hcopied : k'.copied = k.copied)
    (hway : ∀ id', d.copy = false → way = .replaced id' → d.id < id' ∧ k.accepted[d.id]? = k.accepted[id']?) :
    k'.Tally := by
  refine h.flow [d] (d.entry way) hperm (fun id => by simp) hacc hledger hcopied fun id id' hmem => ?_
  obtain ⟨hcopy, heq⟩ := mem_entry hmem
  cases heq
  exact hway id' hcopy rfl

/-- The displaced completion is taken or replaced. -/
theorem Inv.takeDisplaced (h : k.Inv) (way : Way) (hd : k.displaced = some d)
    (hway : ∀ id', d.copy = false → way = .replaced id' → d.id < id' ∧ k.accepted[d.id]? = k.accepted[id']?) :
    Inv { k with displaced := none, ledger := k.ledger ++ d.entry way } :=
  { h with
    toTally := h.take way (by grind [items]) rfl rfl rfl hway
    channel := nofun, handAfter := nofun, closed := fun hclosed => (h.closed hclosed).imp_right fun h => ⟨nofun, h.2⟩ }

theorem Inv.takeChannel (h : k.Inv) (hd : k.completeCh = some d) :
    Inv { k with completeCh := none, ledger := k.ledger ++ d.entry .claimed } :=
  { h with
    toTally := h.take .claimed (by grind [items]) rfl rfl rfl (nofun)
    channel := fun _ _ => nofun, handBefore := fun _ _ => nofun, closed := fun hclosed => ⟨nofun, (h.closed hclosed).2⟩ }

theorem Inv.takeHand (h : k.Inv) (hd : k.hand = some d) :
    Inv { k with hand := none, wrongHand := none, ledger := k.ledger ++ d.entry .streamed } :=
  { h with
    toTally := h.take .streamed (by grind [items]) rfl rfl rfl (nofun)
    ofHand := nofun, handAfter := fun _ _ => nofun, handBefore := nofun
    closed := fun hclosed => (h.closed hclosed).imp_right fun h => ⟨h.1, nofun⟩ }

/-- A copy that a stream is passed is noted. -/
theorem Inv.streamed (h : k.Inv) (hcopied : d.copy = true → k.Copied d.id) :
    Inv { k with copied := k.copied ++ if d.copy then [d.id] else [] } := by
  refine { h with copied := fun id hmem => ?_ }
  rcases mem_append.1 hmem with hmem | hmem
  · exact h.copied id hmem
  · split at hmem
    · next hcopy =>
      obtain rfl := mem_singleton.1 hmem
      exact hcopied hcopy
    · cases hmem

/-- A completion of the other type replaces what is in the displaced slot. -/
theorem Inv.replace (h : k.Inv) (hbefore : ∀ o ∈ k.displaced, d.taskType = o.taskType ∧ o.Before d)
    (htype : k.accepted[d.id]? = some d.taskType) :
    Inv { k with
      displaced := none, ledger := k.ledger ++ k.displaced.toList.flatMap (·.entry (.replaced d.id)) } := by
  cases hdis : k.displaced with
  | none =>
    have : k = { k with displaced := none, ledger := k.ledger ++ [] } := by rw [append_nil, ← hdis]
    exact this ▸ h
  | some o =>
    obtain ⟨hsame, hlt⟩ := hbefore o hdis
    rw [Option.toList_some, flatMap_singleton]
    refine h.takeDisplaced _ hdis ?_
    intro id' hcopy heq
    cases heq
    refine ⟨hlt hcopy hsame.symm, ?_⟩
    exact (h.known o (.inr (.inl hdis))).1.trans (hsame ▸ htype.symm)

theorem Inv.handOff (h : k.Inv) :
    Inv { k with drained := [], ledger := k.ledger ++ k.drained.flatMap (·.entry .handedOff) } := by
  refine { h with
    toTally := h.flow k.drained _ (by grind [items]) (fun id => ?_) rfl rfl rfl fun id id' hmem => ?_
    movable := nofun, undrained := fun _ => rfl }
  · induction k.drained with
    | nil => rfl
    | cons d ds ih => simp only [flatMap_cons, countP_append, countP_entry, ih, map_cons, sum_cons]
  · obtain ⟨d', -, hmem⟩ := mem_flatMap.1 hmem
    cases (mem_entry hmem).2

theorem Inv.moveChannel (h : k.Inv) (hdis : k.displaced = none) (hwrong : k.wrongHand = none)
    (hd : k.completeCh = some d) : Inv { k with completeCh := none, displaced := some d } := by
  refine { h with
    toTally := h.move (by grind [items]) rfl rfl rfl, channel := fun _ _ => nofun, handAfter := fun o ho d' hd' => ?_
    handBefore := fun _ _ => nofun, closed := fun hclosed => ⟨nofun, ?_, (h.closed hclosed).2.2⟩ }
  · rw [hwrong] at hd'
    cases hd'
  · exact fun d' hd' => (h.closed hclosed).1 d' (hd.trans hd')

theorem Inv.moveHand (h : k.Inv) (hdis : k.displaced = none) (hd : k.wrongHand = some d) :
    Inv { k with hand := none, wrongHand := none, displaced := some d } := by
  have hhand : k.hand = some d := h.ofHand d hd
  exact { h with
    toTally := h.move (by grind [items]) rfl rfl rfl, ofHand := nofun
    channel := fun o ho => h.handBefore o (hd.trans ho), handAfter := fun _ _ => nofun, handBefore := nofun
    closed := fun hclosed =>
      ⟨(h.closed hclosed).1, fun d' hd' => (h.closed hclosed).2.2 d' (hd.trans hd'), nofun⟩ }

theorem Inv.receive (h : k.Inv) (hhand : k.hand = none) (hd : k.completeCh = some d) {wrong : Option Parked}
    (hwrong : ∀ d' ∈ wrong, d' = d) : Inv { k with completeCh := none, hand := some d, wrongHand := wrong } := by
  refine { h with
    toTally := h.move (by grind [items]) rfl rfl rfl, ofHand := fun d' hd' => ?_, channel := fun _ _ => nofun
    handAfter := fun o ho d' hd' => ?_, handBefore := fun _ _ => nofun
    closed := fun hclosed => ⟨nofun, (h.closed hclosed).2.1, fun d' hd' => ?_⟩ } <;> rw [hwrong d' hd']
  · rfl
  · exact h.channel o ho d hd
  · exact (h.closed hclosed).1 d hd

theorem Inv.close (h : k.Inv) (hopen : k.closed = false) (hwrong : k.wrongHand = none)
    (hmoves : ∀ d ∈ k.displaced.toList ++ k.completeCh.toList, (nextHandoff d.toCompletion).isSome = !d.copy) :
    Inv { k with
      closed := true, displaced := none, completeCh := none, drained := k.displaced.toList ++ k.completeCh.toList } := by
  have hempty := h.undrained hopen
  refine { h with
    toTally := h.move (by grind [items]) rfl rfl rfl, channel := nofun, handAfter := nofun
    handBefore := fun _ _ => nofun, closed := fun _ => ⟨nofun, nofun, ?_⟩, movable := hmoves, undrained := nofun }
  rw [hwrong]
  exact nofun

end Stock

namespace Executor

open Stock

variable {s s' : Executor} {d : Parked} {w : Watch}

/-! ## What each call does -/

theorem wrongHand_eq_none (h : s.hand = none) : s.wrongHand = none := by
  unfold hand at h
  unfold wrongHand
  split at h <;> simp_all

theorem stock_displace : (s.displace d).stock = { s.stock with
    displaced := some d, ledger := s.ledger ++ s.displaced.toList.flatMap (·.entry (.replaced d.id)) } := by
  unfold displace replace
  cases s.displaced with
  | none => simp [stock, hand, wrongHand]
  | some o => cases hc : o.copy <;> simp [Parked.entry, hc, stock, record, hand, wrongHand]

theorem stock_stream : (s.stream d).stock = { s.stock with
    ledger := s.ledger ++ d.entry .streamed, copied := s.copied ++ if d.copy then [d.id] else [] } := by
  unfold stream
  cases hc : d.copy <;> simp [Parked.entry, hc, stock, record, hand, wrongHand]

theorem inv_parkCopy (h : s.stock.Inv) (hcopy : d.copy = true) (hcopied : s.stock.Copied d.id)
    (htype : s.accepted[d.id]? = some d.taskType) (hdis : ∀ o ∈ s.displaced, o.Before d)
    (hwrong : ∀ o ∈ s.wrongHand, o.Before d) : (s.parkLocked d).2.stock.Inv := by
  unfold parkLocked
  split
  · next hfree => exact h.parkCopy hfree hcopy hcopied htype hdis hwrong
  · exact h

theorem inv_deliverLocked (h : s.stock.Inv) {c : Completion} (hs : s.deliverLocked c = some s') : s'.stock.Inv := by
  obtain ⟨-, rfl⟩ := of_guard hs
  have hlt : ∀ o, s.stock.Has o → o.id < s.accepted.length := fun o ho => h.id_lt ho
  refine inv_parkCopy (h.deliver c.taskType) rfl ?_ ?_ ?_ ?_
  · exact .inl (mem_append_right _ (mem_singleton_self _))
  · simp
  · exact fun o ho _ _ => hlt o (.inr (.inl ho))
  · exact fun o ho _ _ => hlt o (.inr (.inr (.inl (h.ofHand o ho))))

theorem inv_tryComplete (h : s.stock.Inv) (c : Completion) : (s.tryComplete c).2.stock.Inv := by
  unfold tryComplete
  split
  · next hs => exact inv_deliverLocked h hs
  · split
    · exact h
    · next hopen =>
      unfold parkLocked
      cases hch : s.completeCh with
      | none => exact h.park hch (Bool.of_not_eq_true hopen) c
      | some d => exact h

theorem inv_complete (h : s.stock.Inv) (c : Completion) : (s.complete c).stock.Inv := by
  have hc := inv_tryComplete h c
  unfold complete
  split <;> next heq => rw [heq] at hc; exact hc

theorem inv_resume (h : s.stock.Inv) (i : Nat) (c : Completion) : (s.resume i c).stock.Inv := by
  have hc := inv_tryComplete h c
  unfold resume
  split <;> next heq => rw [heq] at hc; exact hc

/-- A claim gets a completion that was taken from its slot. -/
theorem inv_claimed (h : (s.record d .claimed).stock.Inv)
    (htype : s.accepted[d.id]? = some d.taskType) (hdis : ∀ o ∈ s.displaced, o.taskType ≠ d.taskType)
    (hwrong : s.wrongHand = none) : (s.claimed d).stock.Inv := by
  unfold claimed
  dsimp only
  split
  · refine inv_parkCopy h rfl ?_ htype (fun o ho _ heq => absurd heq (hdis o ho)) ?_
    · exact .inr (mem_append_right _ (mem_singleton_self _))
    · intro o ho
      exact absurd (hwrong.symm.trans ho) (by simp)
  · exact h

theorem inv_drain (h : s.stock.Inv) {t : TaskType} (hdis : ∀ o ∈ s.displaced, o.taskType ≠ t)
    (hwrong : s.wrongHand = none) (hfirst : ∀ d ∈ s.completeCh, d.taskType = t → d.copy = false) :
    (s.drain t).stock.Inv := by
  unfold drain
  cases hch : s.completeCh with
  | none => exact h
  | some d =>
    have htype : s.accepted[d.id]? = some d.taskType := (h.known d (.inl hch)).1
    dsimp only
    split
    · next hne =>
      have hbefore : ∀ o ∈ s.displaced, d.taskType = o.taskType ∧ o.Before d := fun o ho =>
        ⟨TaskType.eq_of_ne hne (hdis o ho), h.channel o ho d hch⟩
      rw [stock_displace]
      exact (h.replace hbefore htype).moveChannel rfl hwrong hch
    · next heq =>
      have heq := Decidable.of_not_not heq
      have htake := h.takeChannel hch
      rw [entry_eq (hfirst d hch heq)] at htake
      exact inv_claimed htake htype (fun o ho => heq ▸ hdis o ho) hwrong

theorem inv_claim (h : s.stock.Inv) (t : TaskType) (hm : s.Meets (.claim t)) : (s.claim t).stock.Inv := by
  obtain ⟨hwrong, hfirst⟩ := hm
  unfold claim
  split
  · next d hd =>
    have htype : s.accepted[d.id]? = some d.taskType := (h.known d (.inr (.inl hd))).1
    split
    · next heq =>
      have htake := h.takeDisplaced .claimed hd (nofun)
      rw [entry_eq (hfirst d (by simp [forClaim, hd, heq]))] at htake
      exact inv_claimed htake htype (nofun) hwrong
    · next hne =>
      refine inv_drain h (fun o ho => ?_) hwrong fun d' hd' heq => hfirst d' ?_
      · rw [hd] at ho
        exact Option.some.inj ho ▸ hne
      · simp [forClaim, hd, hne, heq, Option.mem_def.1 hd']
  · next hd =>
    refine inv_drain h (fun o ho => ?_) hwrong fun d' hd' heq => hfirst d' ?_
    · rw [hd] at ho
      cases ho
    · simp [forClaim, hd, heq, Option.mem_def.1 hd']

/-- The watch leaves its hand empty. -/
theorem stock_goto (w : Watch) (place : Place) (hplace : ∀ d, place ≠ .received d) :
    (s.goto w place).stock = { s.stock with hand := none, wrongHand := none } := by
  cases place with
  | received d => exact absurd rfl (hplace d)
  | _ => rfl

theorem inv_goto (h : s.stock.Inv) (hhand : s.hand = none) (w : Watch) {place : Place}
    (hplace : ∀ d, place ≠ .received d) : (s.goto w place).stock.Inv := by
  have : (s.goto w place).stock = s.stock := by
    rw [stock_goto w place hplace]
    simp [stock, hhand, wrongHand_eq_none hhand]
  exact this ▸ h

theorem inv_look (h : s.stock.Inv) (hhand : s.hand = none) (w : Watch) : (s.look w).stock.Inv := by
  unfold look
  split
  · next d hd =>
    split
    · have htake := h.takeDisplaced .streamed hd (nofun)
      have hstream := htake.streamed fun hcopy => ((h.known d (.inr (.inl hd))).2 hcopy).append rfl
      refine inv_goto (stock_stream ▸ hstream) ?_ w (nofun)
      exact (congrArg Stock.hand stock_stream).trans hhand
    · exact inv_goto h hhand w (nofun)
  · exact inv_goto h hhand w (nofun)

theorem inv_settle (h : s.stock.Inv) (hw : s.watch = some w) (hplace : w.place = .received d) :
    (s.settle w d).stock.Inv := by
  obtain ⟨watchType, place⟩ := w
  subst hplace
  have hhand : s.hand = some d := by simp [hand, hw]
  obtain ⟨htype, hcopies⟩ := h.known d (.inr (.inr (.inl hhand)))
  unfold settle
  dsimp only
  split
  · rw [stock_goto _ .ending (nofun), stock_stream]
    exact (h.takeHand hhand).streamed fun hcopy => (hcopies hcopy).append rfl
  · next hwrong =>
    have hwrongHand : s.wrongHand = some d := by simp [wrongHand, hw, hwrong]
    have hother : ∀ o : Parked, Watch.forWatcher ⟨watchType, .received d⟩ o = false → d.taskType = o.taskType := by
      intro o ho
      cases watchType with
      | none => simp [Watch.forWatcher] at ho
      | some t =>
        simp only [Watch.forWatcher, decide_eq_true_eq, decide_eq_false_iff_not] at ho hwrong
        exact TaskType.eq_of_ne hwrong ho
    have hdisplace : (∀ o ∈ s.displaced, d.taskType = o.taskType ∧ o.Before d) →
        ((s.slotFreedLocked.displace d).goto ⟨watchType, .received d⟩ .looking).stock.Inv := by
      intro hbefore
      rw [stock_goto _ .looking (nofun), stock_displace]
      exact (h.replace hbefore htype).moveHand rfl hwrongHand
    split
    · next mine hmine =>
      split
      · have htake := (h.takeDisplaced .streamed hmine (nofun)).moveHand rfl hwrongHand
        rw [stock_goto _ .ending (nofun), stock_stream]
        exact htake.streamed fun hcopy => ((h.known mine (.inr (.inl hmine))).2 hcopy).append rfl
      · next hnot =>
        refine hdisplace fun o ho => ?_
        rw [show s.displaced = some mine from hmine] at ho
        cases ho
        exact ⟨hother mine (Bool.of_not_eq_true hnot), h.handAfter mine hmine d hwrongHand⟩
    · next hnone =>
      refine hdisplace fun o ho => ?_
      rw [show s.displaced = none from hnone] at ho
      cases ho

theorem inv_receive (h : s.stock.Inv) {watchType : Option TaskType} (hw : s.watch = some ⟨watchType, .selecting⟩)
    (hd : s.completeCh = some d) :
    ({ s with completeCh := none }.goto ⟨watchType, .selecting⟩ (.received d)).stock.Inv := by
  have hhand : s.hand = none := by simp [hand, hw]
  refine h.receive hhand hd ?_
  intro d' hd'
  unfold wrongHand goto at hd'
  dsimp only at hd'
  split at hd'
  · cases hd'
  · exact (Option.some.inj hd').symm

theorem foldl_handOff {ds : List Parked} (hmoves : ∀ d ∈ ds, (nextHandoff d.toCompletion).isSome = !d.copy) :
    ds.foldl (fun s d => if (nextHandoff d.toCompletion).isSome then s.record d .handedOff else s) s =
      { s with ledger := s.ledger ++ ds.flatMap (·.entry .handedOff) } := by
  induction ds generalizing s with
  | nil => simp
  | cons d ds ih =>
    have hd : (if (nextHandoff d.toCompletion).isSome then s.record d .handedOff else s) =
        { s with ledger := s.ledger ++ d.entry .handedOff } := by
      rw [hmoves d mem_cons_self]
      cases hc : d.copy <;> simp [record, Parked.entry, hc]
    rw [foldl_cons, hd, ih fun d' hd' => hmoves d' (mem_cons_of_mem _ hd')]
    simp

theorem inv_handOff (h : s.stock.Inv) : s.handOff.stock.Inv := by
  unfold handOff
  rw [foldl_handOff (show ∀ d ∈ s.drained, _ from h.movable)]
  exact h.handOff

theorem inv_deactivate (h : s.stock.Inv) (hm : s.Meets .deactivate) : s.deactivate.stock.Inv := by
  unfold deactivate
  split
  · exact h
  · next hopen => exact h.close (Bool.of_not_eq_true hopen) hm.1 hm.2

theorem of_entered {f : Nat → Executor}
    (h : (match s.entered with | 0 => none | n + 1 => some (f n)) = some s') : ∃ n, f n = s' := by
  split at h
  · cases h
  · exact ⟨_, Option.some.inj h⟩

theorem inv_watchComplete {watchType : Option TaskType} (h : s.stock.Inv)
    (hs : s.step (.watchComplete watchType) = some s') : s'.stock.Inv := by
  simp only [step] at hs
  split at hs
  · next n hn hw =>
    cases hs
    have hhand : hand { s with entered := n } = none := by simp [hand, hw]
    exact inv_goto (s := { s with entered := n }) h hhand ⟨watchType, .looking⟩ (nofun)
  · cases hs

theorem inv_stop {cause : Cause} (h : s.stock.Inv) (hs : s.step (.stop cause) = some s') : s'.stock.Inv := by
  simp only [step] at hs
  split at hs
  · next hw =>
    obtain ⟨-, rfl⟩ := of_guard hs
    exact inv_goto h (by simp [hand, hw]) _ (nofun)
  · cases hs

theorem inv_unlock (h : s.stock.Inv) (hs : s.step .unlock = some s') : s'.stock.Inv := by
  simp only [step] at hs
  split at hs
  · next hw =>
    cases hs
    have : ({ s with watch := none } : Executor).stock = s.stock := by simp [stock, hand, wrongHand, hw]
    exact this ▸ h
  · cases hs

theorem inv_step {m : Move} (h : s.stock.Inv) (hm : s.Meets m) (hs : s.step m = some s') : s'.stock.Inv := by
  cases m with
  | register t | deregister t =>
    cases hs
    exact h
  | enter =>
    simp only [step] at hs
    split at hs <;> cases hs
    exact h
  | leave =>
    obtain ⟨n, rfl⟩ := of_entered hs
    exact h
  | complete c =>
    obtain ⟨n, rfl⟩ := of_entered hs
    exact inv_complete (s := { s with entered := n }) h c
  | resume i =>
    simp only [step] at hs
    split at hs <;> cases hs
    exact inv_resume h i _
  | giveUp i cause =>
    obtain ⟨-, rfl⟩ := of_guard hs
    exact h
  | claim t =>
    obtain ⟨n, rfl⟩ := of_entered hs
    exact inv_claim (s := { s with entered := n }) h t hm
  | cancel t =>
    obtain ⟨n, rfl⟩ := of_entered hs
    unfold cancel
    split <;> exact h
  | watchComplete watchType => exact inv_watchComplete h hs
  | look =>
    simp only [step] at hs
    split at hs <;> cases hs
    next hw => exact inv_look h (by simp [hand, hw]) _
  | receive =>
    simp only [step] at hs
    split at hs <;> cases hs
    next hw hd => exact inv_receive h hw hd
  | settle =>
    simp only [step] at hs
    split at hs <;> cases hs
    next hw => exact inv_settle h hw rfl
  | stop cause => exact inv_stop h hs
  | unlock => exact inv_unlock h hs
  | deactivate =>
    cases hs
    exact inv_deactivate h hm
  | handOff =>
    obtain ⟨-, rfl⟩ := of_guard hs
    exact inv_handOff h

/-! ## Whole runs -/

/-- What moves that meet the condition lead to. -/
def Reached : Executor → Prop := Reachable (· = fresh) (Steps Meets step)

theorem Reached.inv (h : s.Reached) : s.stock.Inv := by
  refine Reachable.invariant (fun s => s.stock.Inv) ?_ ?_ h
  · rintro s rfl
    exact inv_fresh
  · rintro s s' hinv ⟨m, hm, hs⟩
    exact inv_step hinv hm hs

theorem length_filter_weighs (ds : List Parked) (id : Nat) :
    (ds.filter fun d => !d.copy && d.id = id).length = (ds.map (·.weighs id)).sum := by
  induction ds with
  | nil => rfl
  | cons d ds ih =>
    rw [map_cons, sum_cons, ← ih]
    cases hc : d.copy
    · by_cases hid : d.id = id <;> simp [Parked.weighs, hc, hid]
      omega
    · simp [Parked.weighs, hc]

theorem held_subset : s.held ⊆ s.stock.items := by
  unfold held
  cases s.closeCh <;> simp [items, stock]

/-- What the actor holds counts as often as what is in its slots. -/
theorem length_held (h : s.stock.Inv) (id : Nat) :
    (s.held.filter fun d => !d.copy && d.id = id).length = (s.stock.items.map (·.weighs id)).sum := by
  rw [length_filter_weighs]
  unfold held
  cases hcl : s.closeCh with
  | false => rfl
  | true =>
    obtain ⟨hch, hdis, -⟩ := h.closed hcl
    have hzero : ∀ o : Option Parked, (∀ d ∈ o, d.copy = true) → (o.toList.map (·.weighs id)).sum = 0 := by
      intro o ho
      cases o with
      | none => rfl
      | some d => simp [Parked.weighs, ho d rfl]
    simp [items, stock, hzero s.completeCh hch, hzero s.displaced hdis]

theorem mem_waysOf {id : Nat} {way : Way} : way ∈ s.waysOf id → way = .held ∨ (id, way) ∈ s.ledger := by
  intro hmem
  rcases mem_append.1 hmem with hmem | hmem
  · obtain ⟨_, -, rfl⟩ := mem_map.1 hmem
    exact .inl rfl
  · obtain ⟨⟨id', way'⟩, hfilter, rfl⟩ := mem_map.1 hmem
    obtain ⟨hledger, heq⟩ := mem_filter.1 hfilter
    obtain rfl := of_decide_eq_true heq
    exact .inr hledger

theorem mem_waysOf_of_ledger {id : Nat} {way : Way} (h : (id, way) ∈ s.ledger) : way ∈ s.waysOf id :=
  mem_append_right _ (mem_map.2 ⟨(id, way), mem_filter.2 ⟨h, by simp⟩, rfl⟩)

/-- Every accepted completion is accounted for in one way; one that is replaced is so by a later one of
its type, and copies are held, or were passed to a watch, only of what was delivered or claimed. -/
theorem completion_accounted (h : s.Reached) {id : Nat} (hid : id < s.accepted.length) :
    ∃ way, s.waysOf id = [way] ∧
      (∀ id', way = .replaced id' → id < id' ∧ s.accepted[id]? = s.accepted[id']?) ∧
      ((∃ d ∈ s.held, d.id = id ∧ d.copy = true) ∨ id ∈ s.copied → way = .delivered ∨ way = .claimed) := by
  have hinv := h.inv
  have hlength : (s.waysOf id).length = 1 := by
    have hc := hinv.counted id
    rw [if_pos (show id < s.stock.accepted.length from hid)] at hc
    rw [waysOf, length_append, length_map, length_map, length_held hinv, ← countP_eq_length_filter]
    exact hc
  obtain ⟨way, hway⟩ := length_eq_one_iff.1 hlength
  refine ⟨way, hway, ?_, ?_⟩
  · rintro id' rfl
    rcases mem_waysOf (hway ▸ mem_singleton_self _) with heq | hmem
    · cases heq
    · exact hinv.later id id' hmem
  · have honly : ∀ way', (id, way') ∈ s.ledger → way = way' := by
      intro way' hmem
      have := mem_waysOf_of_ledger hmem
      rw [hway] at this
      exact (mem_singleton.1 this).symm
    rintro (⟨d, hd, rfl, hcopy⟩ | hcopied)
    · exact ((hinv.known d (mem_items.1 (held_subset hd))).2 hcopy).imp (honly _) (honly _)
    · exact (hinv.copied id hcopied).imp (honly _) (honly _)

instance (s : Executor) : (m : Move) → Decidable (s.Meets m)
  | .claim _ | .deactivate => inferInstanceAs (Decidable (_ ∧ _))
  | .register _ | .deregister _ | .enter | .leave | .complete _ | .resume _ | .giveUp _ _ | .cancel _
  | .watchComplete _ | .look | .receive | .settle | .stop _ | .unlock | .handOff => .isTrue trivial

/-- An activity's completion is delivered, and its copy is what the activity's watch is passed. A workflow's
completion, displaced by that watch, is handed off. -/
theorem completion_accounted_handedOff :
    ∃ s, runFrom step fresh
        [.enter, .complete ⟨.workflow, false, none⟩, .register .activity, .enter, .watchComplete (some .activity), .look,
          .receive, .settle, .look, .enter, .complete ⟨.activity, false, none⟩, .receive, .settle, .unlock, .deactivate,
          .handOff] = some s ∧
      s.accepted = [.workflow, .activity] ∧ s.copied = [1] ∧ (∃ way, s.waysOf 0 = [way] ∧ way = .handedOff) ∧
      ∃ way, s.waysOf 1 = [way] ∧ (way = .delivered ∨ way = .claimed) := by
  let moves : List Move :=
    [.enter, .complete ⟨.workflow, false, none⟩, .register .activity, .enter, .watchComplete (some .activity), .look,
      .receive, .settle, .look, .enter, .complete ⟨.activity, false, none⟩, .receive, .settle, .unlock, .deactivate,
      .handOff]
  let s : Executor :=
    ⟨none, none, false, true, [.activity], 0, [], none, [], [.workflow, .activity], [(1, .delivered), (0, .handedOff)],
      [1]⟩
  have hrun : runFrom step fresh moves = some s := by decide
  have hguarded : runFrom (guarded Meets step) fresh moves = some s := by decide
  have hreached : s.Reached := reachable_of_guarded (.start rfl) hguarded
  obtain ⟨way, hway, -, -⟩ := completion_accounted hreached (show 0 < s.accepted.length by decide)
  obtain ⟨way', hway', -, hcopied⟩ := completion_accounted hreached (show 1 < s.accepted.length by decide)
  refine ⟨s, hrun, rfl, rfl, ⟨way, hway, ?_⟩, way', hway', hcopied (.inr (by decide))⟩
  have : s.waysOf 0 = [.handedOff] := by decide
  rw [hway] at this
  exact singleton_inj.1 this

/-- A watch for the activity takes the workflow's first completion off the channel; before the watch has
the mutex, the second one is parked and a claim displaces it, and the watch puts the first one in its
place. Or the actor retires meanwhile, and the watch leaves the completion in an actor that nobody
looks at again. Or a claim takes the completion while the watch is there: the copy that it parks is not marked,
so that the next claim takes it again and the retirement hands it off. -/
theorem completion_lost_to_earlier :
    (∃ s, runFrom step fresh
        [.enter, .watchComplete (some .activity), .look, .enter, .complete ⟨.workflow, false, none⟩, .receive,
          .enter, .complete ⟨.workflow, false, none⟩, .enter, .claim .activity, .settle] = some s ∧
      s.accepted = [.workflow, .workflow] ∧ s.waysOf 0 = [.held] ∧ s.waysOf 1 = [.replaced 0]) ∧
    (∃ s, runFrom step fresh
        [.enter, .watchComplete (some .activity), .look, .enter, .complete ⟨.workflow, false, none⟩, .receive,
          .deactivate, .settle, .look, .stop .closeCh, .unlock, .handOff] = some s ∧
      s.accepted = [.workflow] ∧ s.waysOf 0 = []) ∧
    ∃ s, runFrom step fresh
        [.enter, .watchComplete (some .activity), .look, .enter, .complete ⟨.workflow, false, none⟩,
          .enter, .claim .workflow, .enter, .claim .workflow, .deactivate, .stop .closeCh, .unlock, .handOff] = some s ∧
      s.accepted = [.workflow] ∧ s.waysOf 0 = [.claimed, .claimed, .handedOff] := by
  refine ⟨⟨_, rfl, ?_⟩, ⟨_, rfl, ?_⟩, ⟨_, rfl, ?_⟩⟩ <;> decide

end Executor

end Dapr.Workflow.Rendezvous
