import Mathlib.Data.List.Infix
import Dapr.Lib.Reorder
import Dapr.Workflow.Turn
/-!
# The order in which a worker sees events

A worker replays history and then the new events, in order, and may ignore a resolution whose step
does not exist yet. So the events handed to it are reordered: in the replayed history a resolution
stands behind the scheduling of its step, and among the new events those that resolve nothing yet
stand last. After the turn, what still resolves nothing is taken out of the new events.
-/

namespace Dapr.Workflow

open Lib.Reorder List

theorem resolves_of_schedules {e : HistoryEvent} {k : Scheduling} (h : schedules e = some k) : resolves e = none := by
  unfold schedules at h
  split at h <;> simp_all [resolves]

/-! ## Resolutions taken out of a turn -/

section Strip
variable {history newEvents : List HistoryEvent} {keep : Bool}

theorem isScheduled_append (xs ys : List HistoryEvent) (k : Scheduling) :
    isScheduled (xs ++ ys) k = (isScheduled xs k || isScheduled ys k) := any_append

theorem isScheduled_filter_isMatched (events newEvents : List HistoryEvent) (k : Scheduling) :
    isScheduled (newEvents.filter (isMatched events)) k = isScheduled newEvents k := by
  unfold isScheduled
  rw [any_filter]
  congr 1
  funext e
  by_cases hs : schedules e = some k
  · simp [isMatched, resolves_of_schedules hs]
  · simp [hs]

theorem isMatched_filter_isMatched (history newEvents : List HistoryEvent) :
    isMatched (history ++ newEvents.filter (isMatched (history ++ newEvents))) = isMatched (history ++ newEvents) := by
  funext e
  cases hr : resolves e with
  | none => simp [isMatched, hr]
  | some k =>
    rw [isMatched_of_resolves hr, isMatched_of_resolves hr, isScheduled_append, isScheduled_append,
      isScheduled_filter_isMatched]

/-- Events that all resolve something scheduled, or nothing, are left as they are. -/
theorem strip_of_matched (h : ∀ e ∈ newEvents, isMatched (history ++ newEvents) e = true) :
    stripUnmatchedResolutions history newEvents keep = (newEvents, []) := by
  unfold stripUnmatchedResolutions
  rw [strip_loop_eq, filter_eq_self.2 h]
  refine Prod.ext rfl (filter_eq_nil_iff.2 fun e he => ?_)
  have hm := h e he
  cases hr : resolves e with
  | none => simp [isEarly, hr]
  | some k =>
    rw [isMatched_of_resolves hr] at hm
    simp [isEarly, hr, hm]

/-- A turn's new events are split three ways: those that resolve nothing or a scheduled step go on
to history, unmatched results of activities and child workflows that the workflow may still schedule
stay in the inbox unless it completed or continued as new, and the rest is dropped. What went on is
not split again. -/
theorem unmatched_partitioned (history : List HistoryEvent) (rs : EngineState) :
    stripUnmatchedResolutions history rs.newEvents (!rs.completed && !rs.continuedAsNew) =
      (rs.newEvents.filter (isMatched (history ++ rs.newEvents)),
        rs.newEvents.filter fun e => !rs.completed && !rs.continuedAsNew && isEarly history rs.newEvents e) ∧
    ∀ keep, stripUnmatchedResolutions history (rs.newEvents.filter (isMatched (history ++ rs.newEvents))) keep =
      (rs.newEvents.filter (isMatched (history ++ rs.newEvents)), []) := by
  refine ⟨strip_loop_eq rs.newEvents, fun keep => strip_of_matched fun e he => ?_⟩
  rw [isMatched_filter_isMatched]
  exact (mem_filter.1 he).2

end Strip

/-! ## New events that resolve nothing yet -/

theorem unscheduledLast_loop_eq (history es : List HistoryEvent) :
    unscheduledLast.loop history es = (es.filter (isMatched history), es.filter fun e => !isMatched history e) := by
  induction es with
  | nil => rfl
  | cons e es ih =>
    simp only [unscheduledLast.loop]
    split <;> simp_all

theorem unscheduledLast_eq (history events : List HistoryEvent) :
    unscheduledLast history events =
      events.filter (isMatched history) ++ events.filter fun e => !isMatched history e := by
  unfold unscheduledLast
  split
  · next h =>
    have hall : ∀ e ∈ events, isMatched history e = true := by
      simpa using h
    rw [filter_eq_self.2 hall, filter_eq_nil_iff.2 (by simpa using hall), append_nil]
  · next i h =>
    -- what comes before the first unscheduled resolution is copied
    have hfront : ∀ e ∈ events.take i, isMatched history e = true := by
      intro e he
      obtain ⟨j, hj, rfl⟩ := mem_take_iff_getElem.1 he
      have := (findIdx?_eq_some_iff_getElem.1 h).2.2 j (by omega)
      simpa using this
    have hmatched : events.filter (isMatched history) =
        events.take i ++ (events.drop i).filter (isMatched history) := by
      conv_lhs => rw [← take_append_drop i events, filter_append, filter_eq_self.2 hfront]
    have hun : events.filter (fun e => !isMatched history e) = (events.drop i).filter fun e => !isMatched history e := by
      conv_lhs => rw [← take_append_drop i events, filter_append,
        filter_eq_nil_iff.2 (show ∀ e ∈ events.take i, ¬(!isMatched history e) = true by simpa using hfront),
        nil_append]
    rw [unscheduledLast_loop_eq, hmatched, hun]

/-! ## The replayed history -/

/-- Where each step is scheduled; of several places the last. -/
def scheduledAt (history : List HistoryEvent) : Scheduling → Option Nat :=
  history.zipIdx.foldl (fun places (h, j) =>
    match schedules h with
    | some k => Function.update places k (some j)
    | none => places) fun _ => none

/-- History with each resolution that precedes the scheduling of its step moved to just after it. -/
def resolutionsAfterScheduling (history : List HistoryEvent) : List HistoryEvent :=
  (loop history 0 none fun _ => []).getD history
where
  /-- `out` is not built before an event has to move. -/
  loop : List HistoryEvent → Nat → Option (List HistoryEvent) → (Nat → List HistoryEvent) → Option (List HistoryEvent)
    | [], _, out, _ => out
    | e :: es, i, out, moved =>
      match ((resolves e).bind (scheduledAt history)).filter (i < ·) with
      | some j => loop es (i + 1) (some (out.getD (history.take i))) (Function.update moved j (moved j ++ [e]))
      | none => loop es (i + 1) (out.map fun o => o ++ [e] ++ moved i) moved

theorem scheduledAt_concat (history : List HistoryEvent) (e : HistoryEvent) (k : Scheduling) :
    scheduledAt (history ++ [e]) k = if schedules e = some k then some history.length else scheduledAt history k := by
  have hzip : (history ++ [e]).zipIdx = history.zipIdx ++ [(e, history.length)] := by simp [zipIdx_append]
  unfold scheduledAt
  rw [hzip]
  cases hs : schedules e with
  | none => simp [hs]
  | some k' =>
    by_cases hk : k = k'
    · simp [hs, hk]
    · simp [hs, Function.update_of_ne hk, Ne.symm hk]

section Places
variable {history : List HistoryEvent} {i j : Nat} {k : Scheduling}

theorem schedules_of_scheduledAt (h : scheduledAt history k = some j) :
    j < history.length ∧ history[j]?.bind schedules = some k := by
  induction history using reverseRecOn with
  | nil => cases h
  | append_singleton history e ih =>
    rw [scheduledAt_concat] at h
    split at h
    · next hs =>
      cases h
      simpa using hs
    · obtain ⟨hlt, hj⟩ := ih h
      refine ⟨by rw [length_append]; omega, ?_⟩
      rwa [getElem?_append_left hlt]

theorem scheduledAt_of_schedules (h : history[j]?.bind schedules = some k) :
    ∃ j', j ≤ j' ∧ scheduledAt history k = some j' := by
  induction history using reverseRecOn with
  | nil => simp at h
  | append_singleton history e ih =>
    rw [scheduledAt_concat]
    by_cases hlt : j < history.length
    · split
      · exact ⟨history.length, Nat.le_of_lt hlt, rfl⟩
      · rw [getElem?_append_left hlt] at h
        exact ih h
    · by_cases hj : j = history.length
      · subst hj
        have hs : schedules e = some k := by simpa using h
        exact ⟨history.length, le_rfl, if_pos hs⟩
      · rw [List.getElem?_eq_none (by rw [length_append]; simp; omega)] at h
        cases h

/-- Where the event at a position moves. -/
def moveTarget (history : List HistoryEvent) (i : Nat) : Option Nat :=
  history[i]?.bind fun e => ((resolves e).bind (scheduledAt history)).filter (i < ·)

theorem moveTarget_eq_some :
    moveTarget history i = some j ↔
      i < j ∧ ∃ k, history[i]?.bind resolves = some k ∧ scheduledAt history k = some j := by
  unfold moveTarget
  cases history[i]? with
  | none => simp
  | some e =>
    simp only [Option.bind_some, Option.filter_eq_some_iff, Option.bind_eq_some_iff, decide_eq_true_eq]
    exact And.comm

/-- An event that schedules a step stays. -/
theorem moveTarget_of_schedules (h : history[j]?.bind schedules = some k) : moveTarget history j = none := by
  obtain ⟨e, he, hs⟩ := Option.bind_eq_some_iff.1 h
  simp [moveTarget, he, resolves_of_schedules hs]

def replayMoves (history : List HistoryEvent) : Moves history.length where
  target := moveTarget history
  later h := (moveTarget_eq_some.1 h).1
  within h := by
    obtain ⟨-, k, -, hk⟩ := moveTarget_eq_some.1 h
    exact (schedules_of_scheduledAt hk).1
  stays h := by
    obtain ⟨-, k, -, hk⟩ := moveTarget_eq_some.1 h
    exact moveTarget_of_schedules (schedules_of_scheduledAt hk).2

end Places

/-- The loop after the events before `i`: what is put out are their blocks, and what waits for a
later position are those of them that move there. -/
theorem replay_loop_eq {history : List HistoryEvent} (es : List HistoryEvent) :
    ∀ {i : Nat} {out : Option (List HistoryEvent)} {moved : Nat → List HistoryEvent}, history.drop i = es →
      out.getD (history.take i) = pick history ((range i).flatMap (replayMoves history).block) →
      (out = none → ∀ x < i, moveTarget history x = none) →
      (∀ j, moved j = pick history ((range i).filter fun x => moveTarget history x = some j)) →
      i ≤ history.length →
      (resolutionsAfterScheduling.loop history es i out moved).getD history =
        pick history (replayMoves history).order := by
  induction es with
  | nil =>
    intro i out moved hes hout hnone hmoved hi
    have hend : i = history.length := by
      have := drop_eq_nil_iff.1 hes
      omega
    subst hend
    rw [take_length] at hout
    exact hout
  | cons e es ih =>
    intro i out moved hes hout hnone hmoved hi
    have hlt : i < history.length := by
      by_contra hge
      rw [drop_eq_nil_iff.2 (by omega)] at hes
      cases hes
    have he : history[i]? = some e := by
      have := congrArg (·[0]?) hes
      simpa using this
    have hes' : history.drop (i + 1) = es := by
      rw [← drop_drop, hes]
      rfl
    have htarget : moveTarget history i = ((resolves e).bind (scheduledAt history)).filter (i < ·) := by
      simp [moveTarget, he]
    simp only [resolutionsAfterScheduling.loop]
    rw [← htarget]
    cases ht : moveTarget history i with
    | some j =>
      refine ih hes' ?_ (by simp) (fun j' => ?_) hlt
      · rw [range_succ, flatMap_append, flatMap_singleton, Moves.block_of_moves ht, append_nil]
        exact hout
      · rw [range_succ]
        by_cases hj : j' = j
        · subst hj
          simp [hmoved, ht, pick, he]
        · simp [Function.update_of_ne hj, hmoved, ht, Ne.symm hj, pick]
    | none =>
      have hblock : (replayMoves history).block i =
          i :: (range i).filter fun x => moveTarget history x = some i := by
        rw [Moves.block_of_stays ht, Moves.movedTo_eq hi]
        rfl
      refine ih hes' ?_ ?_ (fun j' => ?_) hlt
      · rw [range_succ, flatMap_append, flatMap_singleton, hblock, pick_append, ← hout]
        cases out with
        | none =>
          have hwait : (range i).filter (fun x => moveTarget history x = some i) = [] := by
            refine filter_eq_nil_iff.2 fun x hx => ?_
            simp [hnone rfl x (mem_range.1 hx)]
          rw [hwait, take_add_one]
          simp [pick, he]
        | some o => simp [hmoved, pick, he]
      · intro hout'
        cases out with
        | none =>
          intro x hx
          rcases Nat.lt_succ_iff_lt_or_eq.1 hx with hx | rfl
          · exact hnone rfl x hx
          · exact ht
        | some o => cases hout'
      · rw [range_succ]
        simp [hmoved, ht, pick]

theorem resolutionsAfterScheduling_eq (history : List HistoryEvent) :
    resolutionsAfterScheduling history = pick history (replayMoves history).order := by
  refine replay_loop_eq history rfl ?_ ?_ (fun j => rfl) (Nat.zero_le _)
  · rfl
  · intro _ x hx
    cases hx

/-- The event at `i` resolves the step that the event at `j` schedules. -/
def ResolvesAt (history : List HistoryEvent) (i j : Nat) : Prop :=
  (history[i]?.bind resolves).isSome ∧ history[i]?.bind resolves = history[j]?.bind schedules

instance (history : List HistoryEvent) (i j : Nat) : Decidable (ResolvesAt history i j) :=
  inferInstanceAs (Decidable (_ ∧ _))

/-- The event at `i` resolves the step that the later event at `j` schedules. -/
def Precedes (history : List HistoryEvent) (i j : Nat) : Prop := i < j ∧ ResolvesAt history i j

instance (history : List HistoryEvent) (i j : Nat) : Decidable (Precedes history i j) :=
  inferInstanceAs (Decidable (_ ∧ _))

section Reordered
variable {history : List HistoryEvent} {i j : Nat} {k : Scheduling}

theorem resolvesAt_iff :
    ResolvesAt history i j ↔ ∃ k, history[i]?.bind resolves = some k ∧ history[j]?.bind schedules = some k := by
  unfold ResolvesAt
  cases hr : history[i]?.bind resolves with
  | none => simp
  | some k => simp [eq_comm]

theorem lt_length_of_schedules (h : history[j]?.bind schedules = some k) : j < history.length := by
  obtain ⟨e, he, -⟩ := Option.bind_eq_some_iff.1 h
  exact (List.getElem?_eq_some_iff.1 he).1

section
variable (hu : (history.filterMap schedules).Nodup)
include hu

/-- Each step is scheduled in one place. -/
theorem scheduled_once (hi : history[i]?.bind schedules = some k)
    (hj : history[j]?.bind schedules = some k) : i = j := by
  have hdiff : ∀ {i j : Nat}, i < j → history[i]?.bind schedules = some k → history[j]?.bind schedules ≠ some k := by
    intro i j hij hi hj
    obtain ⟨a, ha, hka⟩ := Option.bind_eq_some_iff.1 hi
    obtain ⟨b, hb, hkb⟩ := Option.bind_eq_some_iff.1 hj
    obtain ⟨hi', rfl⟩ := List.getElem?_eq_some_iff.1 ha
    obtain ⟨hj', rfl⟩ := List.getElem?_eq_some_iff.1 hb
    have hne := pairwise_iff_getElem.1 (pairwise_filterMap.1 hu) i j hi' hj' hij
    exact hne k hka k hkb rfl
  rcases Nat.lt_trichotomy i j with hij | rfl | hij
  · exact absurd hj (hdiff hij hi)
  · rfl
  · exact absurd hi (hdiff hij hj)

theorem moveTarget_iff : moveTarget history i = some j ↔ Precedes history i j := by
  rw [moveTarget_eq_some, Precedes, resolvesAt_iff]
  refine and_congr_right fun _ => exists_congr fun k => and_congr_right fun _ => ?_
  constructor
  · intro h
    exact (schedules_of_scheduledAt h).2
  · intro h
    obtain ⟨j', -, hj'⟩ := scheduledAt_of_schedules h
    rwa [scheduled_once hu h (schedules_of_scheduledAt hj').2]

theorem moveTarget_eq_none_iff : moveTarget history i = none ↔ ∀ j, ¬Precedes history i j := by
  rw [Option.eq_none_iff_forall_ne_some]
  exact forall_congr' fun j => not_congr (moveTarget_iff hu)

/-- In the new order no resolution stands before the scheduling of its step. -/
theorem order_pairwise_not_resolvesAt : (replayMoves history).order.Pairwise fun i j => ¬ResolvesAt history i j := by
  refine Moves.order_pairwise.imp fun {i j} horder hres => ?_
  obtain ⟨k, hi, hj⟩ := resolvesAt_iff.1 hres
  have hstay : (replayMoves history).target j = none := moveTarget_of_schedules hj
  have hslot : (replayMoves history).slot j = j := by simp [Moves.slot, hstay]
  rw [hslot, hstay] at horder
  have hbefore : (replayMoves history).slot i < j := by simpa using horder
  by_cases hlt : i < j
  · -- then it moves behind `j`
    have ht : (replayMoves history).target i = some j := (moveTarget_iff hu).2 ⟨hlt, hres⟩
    simp [Moves.slot, ht] at hbefore
  · -- then it stays, behind `j`
    have ht : (replayMoves history).target i = none := by
      refine (moveTarget_eq_none_iff hu).2 fun j' hj' => ?_
      obtain ⟨k', hi', hk'⟩ := resolvesAt_iff.1 hj'.2
      cases hi.symm.trans hi'
      have := scheduled_once hu hj hk'
      have := hj'.1
      omega
    simp [Moves.slot, ht] at hbefore
    omega

end

/-- No event resolves a step that a later one schedules. -/
def ResolvesBehind (events : List HistoryEvent) : Prop :=
  events.Pairwise fun a b => ∀ k, resolves a = some k → schedules b ≠ some k

theorem resolvesBehind_pick {order : List Nat} (h : order.Pairwise fun i j => ¬ResolvesAt history i j) :
    ResolvesBehind (pick history order) := by
  refine pairwise_filterMap.2 (h.imp fun {i j} hnot a ha b hb k hr hs => hnot ?_)
  exact resolvesAt_iff.2 ⟨k, by simp [ha, hr], by simp [hb, hs]⟩

/-- Then nothing moves. -/
theorem resolutionsAfterScheduling_of_behind (h : ResolvesBehind history) :
    resolutionsAfterScheduling history = history := by
  have hstay : ∀ i, (replayMoves history).target i = none := by
    intro i
    refine Option.eq_none_iff_forall_ne_some.2 fun j hj => ?_
    obtain ⟨hij, k, hk, hat⟩ := moveTarget_eq_some.1 hj
    obtain ⟨a, ha, hr⟩ := Option.bind_eq_some_iff.1 hk
    obtain ⟨b, hb, hs⟩ := Option.bind_eq_some_iff.1 (schedules_of_scheduledAt hat).2
    obtain ⟨hi', rfl⟩ := List.getElem?_eq_some_iff.1 ha
    obtain ⟨hj', rfl⟩ := List.getElem?_eq_some_iff.1 hb
    exact pairwise_iff_getElem.1 h i j hi' hj' hij k hr hs
  rw [resolutionsAfterScheduling_eq, Moves.order_eq_range hstay, pick_range]

/-- The positions of a history in the order in which it is replayed. -/
structure IsReplayOrder (history : List HistoryEvent) (order : List Nat) : Prop where
  perm : order.Perm (range history.length)
  /-- No resolution stands before the scheduling of its step. -/
  behind : order.Pairwise fun i j => ¬ResolvesAt history i j
  /-- What did not precede the scheduling of its step keeps its order. -/
  kept : order.filter (fun i => ∀ j < history.length, ¬Precedes history i j) =
    (range history.length).filter fun i => ∀ j < history.length, ¬Precedes history i j
  /-- What did stands directly behind that scheduling, in its order. -/
  moved : ∀ j, (history[j]?.bind schedules).isSome →
    (j :: (range history.length).filter fun i => Precedes history i j) <:+: order

theorem isReplayOrder_order (hu : (history.filterMap schedules).Nodup) :
    IsReplayOrder history (replayMoves history).order := by
  have hstays : ∀ i, (∀ j < history.length, ¬Precedes history i j) ↔ (replayMoves history).target i = none := by
    intro i
    refine Iff.trans ⟨fun h j hj => ?_, fun h j _ => h j⟩ (moveTarget_eq_none_iff hu).symm
    obtain ⟨k, -, hk⟩ := resolvesAt_iff.1 hj.2
    exact h j (lt_length_of_schedules hk) hj
  refine ⟨Moves.order_perm, order_pairwise_not_resolvesAt hu, ?_, fun j hj => ?_⟩
  · simp only [hstays]
    exact Moves.order_filter_stays
  · obtain ⟨k, hk⟩ := Option.isSome_iff_exists.1 hj
    have hmoved : (range history.length).filter (fun i => Precedes history i j) =
        (replayMoves history).movedTo j := by
      congr 1
      funext i
      exact decide_eq_decide.2 (moveTarget_iff hu).symm
    rw [hmoved]
    exact Moves.block_infix_order (lt_length_of_schedules hk) (moveTarget_of_schedules hk)

end Reordered

/-- The replayed history is the persisted one with the resolutions that precede the scheduling of
their step moved behind it, if each step is scheduled once; and the new events are handed over with
those that resolve nothing yet last. -/
theorem replay_reordered :
    (∀ history : List HistoryEvent, (history.filterMap schedules).Nodup →
      (resolutionsAfterScheduling history).Perm history ∧
      (∃ order, IsReplayOrder history order ∧ resolutionsAfterScheduling history = pick history order) ∧
      resolutionsAfterScheduling (resolutionsAfterScheduling history) = resolutionsAfterScheduling history) ∧
    ∀ history events : List HistoryEvent, unscheduledLast history events =
      events.filter (isMatched history) ++ events.filter fun e => !isMatched history e := by
  refine ⟨fun history hu => ?_, unscheduledLast_eq⟩
  have horder := isReplayOrder_order hu
  have heq := resolutionsAfterScheduling_eq history
  refine ⟨heq ▸ pick_perm horder.perm, ⟨_, horder, heq⟩, ?_⟩
  refine resolutionsAfterScheduling_of_behind ?_
  rw [heq]
  exact resolvesBehind_pick horder.behind

/-- A history in which an activity result was persisted ahead of the scheduling of the activity. -/
def completedAhead : List HistoryEvent :=
  [⟨-1, none, none, .taskCompleted ⟨5, "", none, none, []⟩⟩, ⟨-1, none, none, .eventRaised "approved" none⟩,
    ⟨5, none, none, .taskScheduled ⟨"charge", none, "", none⟩⟩]

theorem replay_reordered_completedAhead :
    (resolutionsAfterScheduling completedAhead).map HistoryEvent.eventId = [-1, 5, -1] ∧
    (resolutionsAfterScheduling completedAhead).Perm completedAhead :=
  ⟨by decide, (replay_reordered.1 completedAhead (by decide)).1⟩

end Dapr.Workflow
