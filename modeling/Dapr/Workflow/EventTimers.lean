import Dapr.Workflow.Replay
/-!
# Timers of waits for external events

A wait for an external event may have a timeout, which is a timer. When the event comes first the
timer is of no use any more and its reminder is deleted. Which timer an event cancels is not
recorded: each turn pairs the events of the whole generation with the timers again, first come
first served for each name, and deletes what its own events cancel.
-/

namespace Dapr.Workflow

open Lib.Runs Function List

/-! ## The pairing -/

section Pairing
variable (toUpper : String → String)

/-- The external event that a timer guards the wait for. -/
def eventTimerName (tc : TimerCreatedEvent) : Option String :=
  match tc.origin with
  | some (.externalEvent name) => some (toUpper name)
  | some .other => none
  -- timers of older releases carry no origin
  | none => tc.name.map toUpper

/-- The timers that wait for each event, oldest first, and the event of each of these timers. -/
structure Pairing where
  pendingEventTimers : String → List Int
  timerNameByID : Int → Option String

def Pairing.empty : Pairing := ⟨fun _ => [], fun _ => none⟩

/-- Read one event; and the timer that it cancels. -/
def Pairing.read (p : Pairing) (e : HistoryEvent) : Pairing × Option Int :=
  match e.eventType with
  | .timerCreated tc =>
    match eventTimerName toUpper tc with
    | some name =>
      (⟨update p.pendingEventTimers name (p.pendingEventTimers name ++ [e.eventId]),
        update p.timerNameByID e.eventId (some name)⟩, none)
    | none => (p, none)
  | .timerFired id =>
    match p.timerNameByID id with
    | none => (p, none)
    | some name =>
      (⟨update p.pendingEventTimers name ((p.pendingEventTimers name).erase id),
        update p.timerNameByID id none⟩, none)
  | .eventRaised name _ =>
    match p.pendingEventTimers (toUpper name) with
    | [] => (p, none)
    | id :: ids =>
      (⟨update p.pendingEventTimers (toUpper name) ids, update p.timerNameByID id none⟩, some id)
  | _ => (p, none)

/-- Read events in order; and the timers that they cancel. -/
def Pairing.pair (p : Pairing) : List HistoryEvent → Pairing × List Int
  | [] => (p, [])
  | e :: es =>
    let (p', cancelled) := p.read toUpper e
    let (p'', rest) := p'.pair es
    (p'', cancelled.toList ++ rest)

/-- The timers whose reminders a turn deletes. What the old events cancel has been deleted by the
turns before. -/
def deleteCancelledEventTimers (oldEvents newEvents : List HistoryEvent) : List Int :=
  if newEvents.any isEventRaised then ((Pairing.empty.pair toUpper oldEvents).1.pair toUpper newEvents).2 else []

/-- What the turns of a generation delete, each run with the events of those before it. -/
def deletedByTurn (oldEvents : List HistoryEvent) : List (List HistoryEvent) → List (List Int)
  | [] => []
  | newEvents :: turns =>
    deleteCancelledEventTimers toUpper oldEvents newEvents :: deletedByTurn (oldEvents ++ newEvents) turns

end Pairing

/-! ## Cuts into turns -/

section Cuts
variable {toUpper : String → String} {p : Pairing} {e : HistoryEvent} {id : Int}

theorem pair_append (p : Pairing) (xs ys : List HistoryEvent) :
    p.pair toUpper (xs ++ ys) =
      (((p.pair toUpper xs).1.pair toUpper ys).1, (p.pair toUpper xs).2 ++ ((p.pair toUpper xs).1.pair toUpper ys).2) := by
  induction xs generalizing p with
  | nil => rfl
  | cons e es ih => simp only [cons_append, Pairing.pair, ih, append_assoc]

theorem read_cancels (h : (p.read toUpper e).2 = some id) : isEventRaised e = true := by
  unfold Pairing.read at h
  unfold isEventRaised
  split at h <;> simp_all <;> split at h <;> simp_all

/-- Only external events cancel timers, so the turns that have none need not look. -/
theorem deleteCancelledEventTimers_eq (oldEvents newEvents : List HistoryEvent) :
    deleteCancelledEventTimers toUpper oldEvents newEvents =
      ((Pairing.empty.pair toUpper oldEvents).1.pair toUpper newEvents).2 := by
  unfold deleteCancelledEventTimers
  split
  · rfl
  · next hany =>
    generalize (Pairing.empty.pair toUpper oldEvents).1 = p
    induction newEvents generalizing p with
    | nil => rfl
    | cons e es ih =>
      have hnone : (p.read toUpper e).2 = none := by
        refine Option.eq_none_iff_forall_ne_some.2 fun id hid => hany ?_
        rw [any_cons, read_cancels hid, Bool.true_or]
      have hrest : ¬es.any isEventRaised = true := fun h => hany (by simp [h])
      simp only [Pairing.pair, hnone, ← ih hrest]
      rfl

theorem deletedByTurn_flatten (oldEvents : List HistoryEvent) (turns : List (List HistoryEvent)) :
    (deletedByTurn toUpper oldEvents turns).flatten =
      deleteCancelledEventTimers toUpper oldEvents turns.flatten := by
  induction turns generalizing oldEvents with
  | nil => simp [deletedByTurn, deleteCancelledEventTimers_eq, Pairing.pair]
  | cons newEvents turns ih =>
    simp only [deletedByTurn, flatten_cons, ih, deleteCancelledEventTimers_eq, pair_append]

end Cuts

/-! ## What is pending -/

def createdTimer (e : HistoryEvent) : Option Int :=
  match e.eventType with
  | .timerCreated _ => some e.eventId
  | _ => none

theorem schedules_of_createdTimer {e : HistoryEvent} {id : Int} (h : createdTimer e = some id) :
    schedules e = some ⟨.timer, id⟩ := by
  unfold createdTimer at h
  split at h
  · next ht =>
    cases h
    simp [schedules, ht]
  · cases h

section Pending
variable {toUpper : String → String} {p : Pairing} {history : List HistoryEvent} {e : HistoryEvent} {cancelled : List Int}
  {id : Int} {name : String}

/-- In the history the timer is created, and does not fire afterwards. -/
def Unfired (history : List HistoryEvent) (id : Int) : Prop :=
  ∃ before creation after, history = before ++ creation :: after ∧ createdTimer creation = some id ∧
    ∀ x ∈ after, x.eventType ≠ .timerFired id

theorem Unfired.concat (h : Unfired history id) (he : e.eventType ≠ .timerFired id) : Unfired (history ++ [e]) id := by
  obtain ⟨before, creation, after, rfl, hc, ha⟩ := h
  exact ⟨before, creation, after ++ [e], by simp, hc, forall_mem_concat ha he⟩

theorem Unfired.created (h : Unfired history id) : id ∈ history.filterMap createdTimer := by
  obtain ⟨before, creation, after, rfl, hc, -⟩ := h
  exact mem_filterMap.2 ⟨creation, by simp, hc⟩

/-- The pairing after the events of a history, and the timers cancelled up to there. -/
structure Pairing.Inv (history : List HistoryEvent) (p : Pairing) (cancelled : List Int) : Prop where
  unfired : ∀ {name id}, id ∈ p.pendingEventTimers name → Unfired history id
  named : ∀ {name id}, p.timerNameByID id = some name ↔ id ∈ p.pendingEventTimers name
  nodup : ∀ name, (p.pendingEventTimers name).Nodup
  created : ∀ id ∈ cancelled, id ∈ history.filterMap createdTimer
  apart : ∀ id ∈ cancelled, ∀ name, id ∉ p.pendingEventTimers name
  once : cancelled.Nodup

namespace Pairing.Inv

theorem empty : Inv [] .empty [] where
  unfired h := by cases h
  named := by simp [Pairing.empty]
  nodup _ := .nil
  created _ h := by cases h
  apart _ h := by cases h
  once := .nil

theorem created_concat {cancelled : List Int} (h : Inv history p cancelled) (e : HistoryEvent) :
    ∀ id ∈ cancelled, id ∈ (history ++ [e]).filterMap createdTimer := by
  intro id hid
  rw [filterMap_append]
  exact mem_append_left _ (h.created id hid)

section
variable (h : Inv history p cancelled)
include h

/-- A timer stands under one name. -/
theorem name_unique {name' : String} (hid : id ∈ p.pendingEventTimers name)
    (hid' : id ∈ p.pendingEventTimers name') : name' = name :=
  Option.some.inj ((h.named.2 hid').symm.trans (h.named.2 hid))

theorem skip (he : ∀ name, ∀ id ∈ p.pendingEventTimers name, e.eventType ≠ .timerFired id) :
    Inv (history ++ [e]) p cancelled :=
  { h with
    unfired := fun hid => (h.unfired hid).concat (he _ _ hid)
    created := h.created_concat e }

theorem create (hc : createdTimer e = some e.eventId)
    (hfresh : e.eventId ∉ history.filterMap createdTimer) (name : String) :
    Inv (history ++ [e]) ⟨update p.pendingEventTimers name (p.pendingEventTimers name ++ [e.eventId]),
      update p.timerNameByID e.eventId (some name)⟩ cancelled := by
  have hnew : ∀ name', e.eventId ∉ p.pendingEventTimers name' := fun name' hm => hfresh (h.unfired hm).created
  have hmem : ∀ {name' id}, id ∈ update p.pendingEventTimers name (p.pendingEventTimers name ++ [e.eventId]) name' ↔
      id ∈ p.pendingEventTimers name' ∨ name' = name ∧ id = e.eventId := by
    intro name' id
    by_cases hn : name' = name
    · subst hn
      simp
    · simp [hn]
  have hnofire : ∀ id, e.eventType ≠ .timerFired id := by
    intro id ht
    simp [createdTimer, ht] at hc
  refine ⟨fun hid => ?_, fun {name' id} => ?_, fun name' => ?_, h.created_concat e, fun id hid name' hm => ?_, h.once⟩
  · rcases hmem.1 hid with hold | ⟨-, rfl⟩
    · exact (h.unfired hold).concat (hnofire _)
    · exact ⟨history, e, [], rfl, hc, fun x hx => by cases hx⟩
  · rw [hmem]
    by_cases hid : id = e.eventId
    · subst hid
      simp [hnew, eq_comm]
    · simp [hid, h.named]
  · dsimp only
    by_cases hn : name' = name
    · subst hn
      rw [update_self]
      exact pairwise_concat (h.nodup _) fun id hid heq => hnew _ (heq ▸ hid)
    · rw [update_of_ne hn]
      exact h.nodup name'
  · rcases hmem.1 hm with hold | ⟨-, rfl⟩
    · exact h.apart id hid name' hold
    · exact hfresh (h.created _ hid)

theorem remove (hid : id ∈ p.pendingEventTimers name) {ids : List Int}
    (hids : ids = (p.pendingEventTimers name).erase id) {cancelled' : List Int}
    (he : ∀ id', e.eventType = .timerFired id' → id' = id)
    (hcancelled : cancelled' = cancelled ∨ cancelled' = cancelled ++ [id]) :
    Inv (history ++ [e]) ⟨update p.pendingEventTimers name ids, update p.timerNameByID id none⟩
      cancelled' := by
  have hmem : ∀ {name' id'}, id' ∈ update p.pendingEventTimers name ids name' ↔
      id' ∈ p.pendingEventTimers name' ∧ id' ≠ id := by
    intro name' id'
    by_cases hn : name' = name
    · subst hn
      rw [update_self, hids, (h.nodup name').mem_erase_iff, and_comm]
    · rw [update_of_ne hn]
      refine ⟨fun hm => ⟨hm, fun heq => hn ?_⟩, And.left⟩
      exact h.name_unique hid (heq ▸ hm)
  have hold := h.created_concat e
  have hidCreated : id ∈ (history ++ [e]).filterMap createdTimer := by
    rw [filterMap_append]
    exact mem_append_left _ (h.unfired hid).created
  refine ⟨fun hm => ?_, fun {name' id'} => ?_, fun name' => ?_, ?_, ?_, ?_⟩
  · obtain ⟨hm, hne⟩ := hmem.1 hm
    exact (h.unfired hm).concat fun ht => hne (he _ ht)
  · rw [hmem]
    by_cases hi : id' = id
    · simp [hi]
    · simp [hi, h.named]
  · dsimp only
    by_cases hn : name' = name
    · subst hn
      rw [update_self, hids]
      exact (h.nodup name').erase id
    · rw [update_of_ne hn]
      exact h.nodup name'
  · rcases hcancelled with rfl | rfl
    · exact hold
    · exact forall_mem_concat hold hidCreated
  · have hapart : ∀ id' ∈ cancelled, ∀ name', id' ∉ update p.pendingEventTimers name ids name' :=
      fun id' hid' name' hm => h.apart id' hid' name' (hmem.1 hm).1
    rcases hcancelled with rfl | rfl
    · exact hapart
    · exact forall_mem_concat hapart fun name' hm => (hmem.1 hm).2 rfl
  · rcases hcancelled with rfl | rfl
    · exact h.once
    · exact pairwise_concat h.once fun id' hid' heq => h.apart id' hid' name (heq ▸ hid)

theorem read (hu : ((history ++ [e]).filterMap createdTimer).Nodup) :
    Inv (history ++ [e]) (p.read toUpper e).1 (cancelled ++ (p.read toUpper e).2.toList) := by
  cases ht : e.eventType with
  | timerCreated tc =>
    have hc : createdTimer e = some e.eventId := by simp [createdTimer, ht]
    have hfresh : e.eventId ∉ history.filterMap createdTimer := by
      rw [filterMap_append, nodup_append] at hu
      intro hm
      exact hu.2.2 _ hm e.eventId (by simp [hc]) rfl
    cases hname : eventTimerName toUpper tc with
    | none => simpa [Pairing.read, ht, hname] using h.skip (by simp [ht])
    | some name => simpa [Pairing.read, ht, hname] using h.create hc hfresh name
  | timerFired id =>
    cases hname : p.timerNameByID id with
    | none =>
      have hnot : ∀ name, ∀ id' ∈ p.pendingEventTimers name, e.eventType ≠ .timerFired id' := by
        rintro name id' hid' hfired
        cases ht.symm.trans hfired
        rw [← h.named, hname] at hid'
        cases hid'
      simpa [Pairing.read, ht, hname] using h.skip hnot
    | some name =>
      have hfired : ∀ id', e.eventType = .timerFired id' → id' = id := by
        rintro id' hfired
        cases ht.symm.trans hfired
        rfl
      simpa [Pairing.read, ht, hname] using h.remove (h.named.1 hname) rfl hfired (.inl rfl)
  | eventRaised name input =>
    have hnot : ∀ id', e.eventType ≠ .timerFired id' := by simp [ht]
    cases hpending : p.pendingEventTimers (toUpper name) with
    | nil => simpa [Pairing.read, ht, hpending] using h.skip fun _ _ _ => hnot _
    | cons id ids =>
      have hids : ids = (p.pendingEventTimers (toUpper name)).erase id := by simp [hpending]
      have hremoved := h.remove (by simp [hpending]) hids (fun id' hfired => absurd hfired (hnot id')) (.inr rfl)
      simpa [Pairing.read, ht, hpending] using hremoved
  | _ => simpa [Pairing.read, ht] using h.skip (by simp [ht])

end

/-- The pairing of a generation whose timers have different ids. -/
theorem pair (hu : (history.filterMap createdTimer).Nodup) :
    Inv history (Pairing.empty.pair toUpper history).1 (Pairing.empty.pair toUpper history).2 := by
  induction history using reverseRecOn with
  | nil => exact empty
  | append_singleton history e ih =>
    have hu' := hu
    rw [filterMap_append] at hu'
    have hbefore := ih (nodup_append.1 hu').1
    rw [pair_append]
    simpa [Pairing.pair] using hbefore.read hu

end Pairing.Inv

/-- What a history cancels is cancelled by one of its events. -/
theorem exists_cancelling (hid : id ∈ deleteCancelledEventTimers toUpper [] history) :
    ∃ before raised after, history = before ++ raised :: after ∧
      id ∈ deleteCancelledEventTimers toUpper before [raised] := by
  simp only [deleteCancelledEventTimers_eq] at hid ⊢
  induction history using reverseRecOn with
  | nil => cases hid
  | append_singleton history e ih =>
    rw [pair_append] at hid
    rcases mem_append.1 hid with hid | hid
    · obtain ⟨before, raised, after, rfl, hc⟩ := ih hid
      exact ⟨before, raised, after ++ [e], by simp, hc⟩
    · exact ⟨history, e, [], rfl, hid⟩

/-- An event cancels a timer that was pending. -/
theorem unfired_of_cancelled (hu : (history.filterMap createdTimer).Nodup)
    (hid : id ∈ deleteCancelledEventTimers toUpper history [e]) : Unfired history id := by
  have hinv : Pairing.Inv history (Pairing.empty.pair toUpper history).1 (Pairing.empty.pair toUpper history).2 := .pair hu
  rw [deleteCancelledEventTimers_eq] at hid
  have hread : ((Pairing.empty.pair toUpper history).1.read toUpper e).2 = some id := by
    simpa [Pairing.pair] using hid
  obtain ⟨name, input, ht⟩ := eventType_of_eventRaised (read_cancels hread)
  simp only [Pairing.read, ht] at hread
  split at hread
  · cases hread
  · next id' ids hpending =>
    cases hread
    have hpending' : id ∈ (Pairing.empty.pair toUpper history).1.pendingEventTimers (toUpper name) := by simp [hpending]
    exact hinv.unfired hpending'

end Pending

/-- However the history of a generation is cut into turns, the turns delete the same timers, each in
one turn. A timer is deleted when an event comes after its creation and it has not fired in between.
If no timer of the history fires before it is created, that is every timer that fired earlier. -/
theorem event_timers_cancelled (toUpper : String → String) (history : List HistoryEvent)
    (hu : (history.filterMap createdTimer).Nodup) :
    (∀ turns : List (List HistoryEvent), turns.flatten = history →
      (deletedByTurn toUpper [] turns).flatten = deleteCancelledEventTimers toUpper [] history ∧
      (deletedByTurn toUpper [] turns).flatten.Nodup) ∧
    (∀ id ∈ deleteCancelledEventTimers toUpper [] history, ∃ before raised after,
      history = before ++ raised :: after ∧ id ∈ deleteCancelledEventTimers toUpper before [raised]) ∧
    ∀ before raised after, history = before ++ raised :: after →
      ∀ id ∈ deleteCancelledEventTimers toUpper before [raised],
        Unfired before id ∧ (∀ x ∈ raised :: after, createdTimer x ≠ some id) ∧
        (ResolvesBehind history → ∀ x ∈ before, x.eventType ≠ .timerFired id) := by
  refine ⟨fun turns hturns => ?_, fun id hid => exists_cancelling hid, ?_⟩
  · have hflat : (deletedByTurn toUpper [] turns).flatten = deleteCancelledEventTimers toUpper [] turns.flatten :=
      deletedByTurn_flatten [] turns
    rw [hflat, hturns]
    refine ⟨rfl, ?_⟩
    rw [deleteCancelledEventTimers_eq]
    exact (Pairing.Inv.pair hu).once
  · rintro before raised after rfl id hid
    rw [filterMap_append, nodup_append] at hu
    have hun := unfired_of_cancelled hu.1 hid
    refine ⟨hun, fun x hx hc => ?_, fun hbehind x hx hfired => ?_⟩
    · exact hu.2.2 id hun.created id (mem_filterMap.2 ⟨x, hx, hc⟩) rfl
    · obtain ⟨front, creation, rest, rfl, hc, hrest⟩ := hun
      have hs := schedules_of_createdTimer hc
      have hr : resolves x = some ⟨.timer, id⟩ := by simp [resolves, hfired]
      have hbefore : ResolvesBehind (front ++ creation :: rest) := (pairwise_append.1 hbehind).1
      rcases mem_append.1 hx with hx | hx
      · exact (pairwise_append.1 hbefore).2.2 x hx creation mem_cons_self _ hr hs
      · rcases mem_cons.1 hx with rfl | hx
        · rw [resolves_of_schedules hs] at hr
          cases hr
        · exact hrest x hx hfired

def exampleWait (id : Int) : HistoryEvent :=
  ⟨id, none, none, .timerCreated ⟨none, some (.externalEvent "approved"), none⟩⟩

/-- A history in which a timer fired ahead of its creation, as it is not replayed. -/
def firedAhead : List HistoryEvent :=
  [⟨-1, none, none, .timerFired 5⟩, exampleWait 5, ⟨-1, none, none, .eventRaised "approved" none⟩]

/-- ASCII letters in upper case. -/
def exampleUpper (s : String) : String := String.ofList (s.toList.map Char.toUpper)

/-- The firing is not seen, and the timer is deleted though it fired earlier. -/
theorem fired_ahead_is_deleted :
    (firedAhead.filterMap createdTimer).Nodup ∧ (firedAhead[0]?).map HistoryEvent.eventType = some (.timerFired 5) ∧
    deleteCancelledEventTimers exampleUpper (firedAhead.take 2) (firedAhead.drop 2) = [5] := by
  decide

/-- The first of two waits times out; the event then ends the second. -/
def exampleWaits : List HistoryEvent :=
  [exampleWait 5, exampleWait 6, ⟨-1, none, none, .timerFired 5⟩, ⟨-1, none, none, .eventRaised "Approved" none⟩]

theorem event_timers_cancelled_example :
    deletedByTurn exampleUpper [] [exampleWaits.take 2, exampleWaits.drop 2] = [[], [6]] ∧
    (deletedByTurn exampleUpper [] [exampleWaits.take 2, exampleWaits.drop 2]).flatten =
      deleteCancelledEventTimers exampleUpper [] exampleWaits :=
  ⟨by decide, ((event_timers_cancelled exampleUpper exampleWaits (by decide)).1 _ (by decide)).1⟩

end Dapr.Workflow
