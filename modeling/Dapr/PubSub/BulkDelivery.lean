import Dapr.PubSub.BulkSubscription
/-!
# Deliveries of a bulk message

What the attempts on a path, and then those on all paths, make of the responses. A message with an error stays pending
until the application has answered for it (`Held`), so no later attempt and no other path can clear the error. A message
has an answer or an error after the first delivery that came back from the application, or after a path on which none
did, if that is the first one.
-/

namespace Dapr.BulkSubscription

open List

variable {Event CloudEvent : Type} {sub : Subscription Event CloudEvent} {rawPayload : Bool}
  {idx : AList fun _ : String => Nat} {R es : List Response} {log log' : List Happening} {x : String} {q : Prop}

/-! ## Processed entries -/

/-- The status that counts for an entry is the first one. -/
def firstStatus (statuses : List (String × Status)) (entryId : String) : Option Status :=
  (statuses.find? (·.1 = entryId)).map (·.2)

/-- The reply is a success for the entry, or drops it. An application without the method drops everything. -/
def Reply.settles (entryId : String) : Reply → Bool
  | .error code => code = some unimplemented
  | .statuses l => firstStatus l entryId = some .success || firstStatus l entryId = some .drop

/-- The application answered for the entry so, or the entry was published to the dead-letter topic. -/
def Happening.settles (entryId : String) : Happening → Bool
  | .called entryIds reply => entryId ∈ entryIds && reply.settles entryId
  | .published entryIds => entryId ∈ entryIds

/-- Something in the log settles the entry. -/
def Settled (log : List Happening) (entryId : String) : Prop := ∃ h ∈ log, h.settles entryId = true

/-- The entry has expired or has no route. -/
def Finding.ignored : Finding CloudEvent → Bool
  | .expired | .routed _ none => true
  | _ => false

def Subscription.ignores (sub : Subscription Event CloudEvent) (e : Entry Event) : Bool :=
  match sub.isRawPayload with
  | .ok rawPayload => (sub.examine rawPayload e).ignored
  | .error _ => false

/-- The application or the dead letter topic took the entry, or the subscription ignores it. -/
def Processed (sub : Subscription Event CloudEvent) (log : List Happening) (e : Entry Event) : Prop :=
  Settled log e.entryId ∨ sub.ignores e = true

instance : Decidable (Settled log x) := inferInstanceAs (Decidable (∃ h ∈ log, h.settles x = true))

instance {e : Entry Event} : Decidable (Processed sub log e) := inferInstanceAs (Decidable (_ ∨ _))

theorem Settled.mono (h : Settled log x) (hsub : log ⊆ log') : Settled log' x := by
  obtain ⟨happening, hmem, hsettles⟩ := h
  exact ⟨happening, hsub hmem, hsettles⟩

theorem Processed.mono {e : Entry Event} (h : Processed sub log e) (hsub : log ⊆ log') : Processed sub log' e :=
  h.imp_left (·.mono hsub)

/-- What the end of the log settles. -/
theorem settled_concat {happening : Happening} (h : happening.settles x = true) : Settled (log ++ [happening]) x :=
  ⟨happening, mem_append_right _ mem_cons_self, h⟩

/-! ## Delivery -/

variable {a : Attempt} {rest : List Attempt}

theorem firstStatus_cons_ne {statuses : List (String × Status)} {y : String} {status : Status} (h : x ≠ y) :
    firstStatus ((y, status) :: statuses) x = firstStatus statuses x := by
  simp [firstStatus, h.symm]

theorem answers_spec (statuses : List (String × Status)) (attemptMsgs : List String) :
    (∀ v ∈ (answers statuses attemptMsgs).1,
      v.1 ∈ attemptMsgs ∧ (v.2 = none → (Reply.statuses statuses).settles v.1 = true)) ∧
    ∀ x ∈ attemptMsgs, x ∈ (answers statuses attemptMsgs).2 ∨ ∃ v ∈ (answers statuses attemptMsgs).1, v.1 = x := by
  induction statuses generalizing attemptMsgs with
  | nil => simp [answers]
  | cons s statuses ih =>
    obtain ⟨y, status⟩ := s
    simp only [answers]
    split
    · rename_i hy
      obtain ⟨hmem, hcover⟩ := ih (attemptMsgs.filter (· ≠ y))
      refine ⟨fun v hv => ?_, fun x hx => ?_⟩
      · rcases mem_cons.1 hv with rfl | hv
        · refine ⟨hy, fun hnone => ?_⟩
          cases status <;> simp_all [statusError, Reply.settles, firstStatus]
        · have ⟨hvy, hsettles⟩ := hmem v hv
          rw [mem_filter, decide_eq_true_eq] at hvy
          refine ⟨hvy.1, fun hnone => ?_⟩
          simpa only [Reply.settles, firstStatus_cons_ne hvy.2] using hsettles hnone
      · by_cases hxy : x = y
        · exact .inr ⟨_, mem_cons_self, hxy.symm⟩
        · rcases hcover x (mem_filter.2 ⟨hx, by simpa using hxy⟩) with hleft | ⟨v, hv, hvx⟩
          · exact .inl hleft
          · exact .inr ⟨v, mem_cons_of_mem _ hv, hvx⟩
    · rename_i hy
      obtain ⟨hmem, hcover⟩ := ih attemptMsgs
      refine ⟨fun v hv => ?_, hcover⟩
      have ⟨hvm, hsettles⟩ := hmem v hv
      have hne : v.1 ≠ y := fun heq => hy (heq ▸ hvm)
      exact ⟨hvm, fun hnone => by simpa only [Reply.settles, firstStatus_cons_ne hne] using hsettles hnone⟩

theorem mem_of_respond {pubSubMessages attemptMsgs : List String} (hsub : attemptMsgs ⊆ pubSubMessages) (reply : Reply) :
    ∀ v ∈ (respond pubSubMessages attemptMsgs reply).1, v.1 ∈ pubSubMessages := by
  intro v hv
  cases reply with
  | error code =>
    simp only [respond] at hv
    split at hv
    all_goals
      obtain ⟨x, hx, rfl⟩ := mem_map.1 hv
      exact hx
  | statuses statuses =>
    simp only [respond, mem_append, mem_map, mem_filter] at hv
    rcases hv with hv | ⟨x, ⟨hx, -⟩, rfl⟩
    · exact hsub ((answers_spec statuses attemptMsgs).1 v hv).1
    · exact hx

/-- A call answers for every message, with success only where the reply settles it, and ends well only if all is
well. -/
theorem respond_spec (ids : List String) (reply : Reply) :
    (∀ v ∈ (respond ids ids reply).1, v.2 = none → reply.settles v.1 = true) ∧
    (∀ x ∈ ids, ∃ v ∈ (respond ids ids reply).1, v.1 = x) ∧
    ((respond ids ids reply).2 = none → ∀ v ∈ (respond ids ids reply).1, v.2 = none) := by
  cases reply with
  | error code =>
    simp only [respond]
    split
    · rename_i hcode
      simp [Reply.settles, hcode]
    · simp
  | statuses statuses =>
    obtain ⟨hmem, hcover⟩ := answers_spec statuses ids
    simp only [respond]
    refine ⟨fun v hv hnone => ?_, fun x hx => ?_, fun herr v hv => ?_⟩
    · rcases mem_append.1 hv with hv | hv
      · exact (hmem v hv).2 hnone
      · obtain ⟨y, -, rfl⟩ := mem_map.1 hv
        cases hnone
    · rcases hcover x hx with hleft | ⟨v, hv, hvx⟩
      · exact ⟨_, mem_append_right _ (mem_map_of_mem (mem_filter.2 ⟨hx, by simpa using hleft⟩)), rfl⟩
      · exact ⟨v, mem_append_left _ hv, hvx⟩
    · split at herr
      · cases herr
      · rename_i hok
        simp only [Bool.or_eq_true, any_eq_true, Bool.not_eq_true', not_or, not_exists, not_and,
          Bool.not_eq_true, Option.isSome_eq_false_iff, Option.isNone_iff_eq_none, Bool.not_eq_false,
          List.isEmpty_iff] at hok
        rw [hok.2, map_nil, append_nil] at hv
        exact hok.1 v hv

/-! ## Responses by entry id -/

/-- Every entry id leads to a response of its own. -/
def Injective (idx : AList fun _ : String => Nat) : Prop :=
  ∀ x y i, idx.lookup x = some i → idx.lookup y = some i → x = y

section
variable (hinj : Injective idx)
include hinj

theorem responseOf_set {y : String} {i : Nat} (hy : idx.lookup y = some i) (v : Response) :
    responseOf idx (R.set i v) x = if x = y then (responseOf idx R x).map fun _ => v else responseOf idx R x := by
  split
  · rename_i hxy
    subst hxy
    by_cases hi : i < R.length <;> simp [responseOf, hy, hi]
  · rename_i hxy
    cases hx : idx.lookup x with
    | none => simp [responseOf, hx]
    | some j =>
      have hij : i ≠ j := fun heq => hxy (hinj x y i (heq ▸ hx) hy)
      simp [responseOf, hx, hij]

theorem responseOf_put (v : Response) :
    responseOf idx (put idx R v) x = if x = v.1 then (responseOf idx R x).map fun _ => v else responseOf idx R x := by
  unfold put
  split
  · rename_i i hi
    exact responseOf_set hinj hi v
  · rename_i hv
    split
    · rename_i hx
      subst hx
      simp [responseOf, hv]
    · rfl

theorem responseOf_merge_of_not_mem (hx : ∀ v ∈ es, v.1 ≠ x) :
    responseOf idx (merge idx R es) x = responseOf idx R x := by
  induction es generalizing R with
  | nil => rfl
  | cons v es ih =>
    have hrest : responseOf idx (merge idx (put idx R v) es) x = responseOf idx (put idx R v) x :=
      ih fun u hu => hx u (mem_cons_of_mem _ hu)
    exact hrest.trans (by rw [responseOf_put hinj, if_neg (hx v mem_cons_self).symm])

theorem responseOf_merge_of_mem (hx : ∃ v ∈ es, v.1 = x) (hR : (responseOf idx R x).isSome) :
    ∃ v ∈ es, v.1 = x ∧ responseOf idx (merge idx R es) x = some v := by
  induction es generalizing R with
  | nil => simp at hx
  | cons v es ih =>
    obtain ⟨r, hr⟩ := Option.isSome_iff_exists.1 hR
    by_cases hrest : ∃ u ∈ es, u.1 = x
    · have hput : (responseOf idx (put idx R v) x).isSome := by
        rw [responseOf_put hinj, hr]
        split <;> rfl
      obtain ⟨u, hu, hux, heq⟩ := ih hrest hput
      exact ⟨u, mem_cons_of_mem _ hu, hux, heq⟩
    · -- the last response for the entry is this one
      have hv : x = v.1 := by
        obtain ⟨u, hu, hux⟩ := hx
        rcases mem_cons.1 hu with rfl | hu
        · exact hux.symm
        · exact absurd ⟨u, hu, hux⟩ hrest
      have hlast : responseOf idx (merge idx (put idx R v) es) x = responseOf idx (put idx R v) x :=
        responseOf_merge_of_not_mem hinj fun u hu hux => hrest ⟨u, hu, hux⟩
      exact ⟨v, mem_cons_self, hv.symm, hlast.trans (by rw [responseOf_put hinj, if_pos hv, hr]; rfl)⟩

/-- The response after `touch`. -/
def touched (err : Option Err) (entryId : String) (r : Response) : Response := if r.1 = "" then (entryId, err) else r

theorem responseOf_touch {err : Option Err} {y : String} {i : Nat} (hy : idx.lookup y = some i) :
    responseOf idx (touch err R y i) x = if x = y then (responseOf idx R x).map (touched err x) else responseOf idx R x := by
  unfold touch
  split
  · rename_i hblank
    obtain ⟨r, hr, hr1⟩ := Option.map_eq_some_iff.1 hblank
    rw [responseOf_set hinj hy]
    split
    · rename_i hxy
      subst hxy
      simp [responseOf, hy, hr, touched, hr1]
    · rfl
  · rename_i hset
    split
    · rename_i hxy
      subst hxy
      cases hr : R[i]? with
      | none => simp [responseOf, hy, hr]
      | some r =>
        have hr1 : r.1 ≠ "" := fun heq => hset (by rw [hr, Option.map_some, heq])
        simp [responseOf, hy, hr, touched, hr1]
    · rfl

theorem responseOf_touches {err : Option Err} {l : List (Sigma fun _ : String => Nat)}
    (hl : ∀ entry ∈ l, idx.lookup entry.1 = some entry.2) (hnodup : (l.map (·.1)).Nodup) :
    responseOf idx (l.foldl (fun responses entry => touch err responses entry.1 entry.2) R) x =
      if x ∈ l.map (·.1) then (responseOf idx R x).map (touched err x) else responseOf idx R x := by
  induction l generalizing R with
  | nil => rfl
  | cons entry l ih =>
    rw [map_cons, nodup_cons] at hnodup
    rw [foldl_cons, ih (fun entry hentry => hl entry (mem_cons_of_mem _ hentry)) hnodup.2,
      responseOf_touch hinj (hl entry mem_cons_self)]
    by_cases hx : x = entry.1
    · subst hx
      rw [if_neg hnodup.1, if_pos rfl, if_pos (by simp)]
    · simp only [hx, if_false, map_cons, mem_cons, false_or]

/-- `touchAll` sets the responses that are not set. -/
theorem responseOf_touchAll (err : Option Err) :
    responseOf idx (touchAll idx err R) x = (responseOf idx R x).map (touched err x) := by
  rw [touchAll, responseOf_touches hinj (fun entry hentry => AList.mem_lookup_iff.2 hentry) idx.nodupKeys]
  split
  · rfl
  · rename_i hx
    have hnone : idx.lookup x = none := AList.lookup_eq_none.2 hx
    simp [responseOf, hnone]

end

theorem length_merge : (merge idx R es).length = R.length := by
  refine foldlRecOn es _ (motive := fun responses : List Response => responses.length = R.length) rfl ?_
  intro responses hlen v _
  unfold put
  split
  · rw [length_set, hlen]
  · exact hlen

theorem length_touchAll {err : Option Err} : (touchAll idx err R).length = R.length := by
  refine foldlRecOn idx.entries _ (motive := fun responses : List Response => responses.length = R.length) rfl ?_
  intro responses hlen entry _
  unfold touch
  split
  · rw [length_set, hlen]
  · exact hlen

/-! ## The attempts on a route -/

section Attempts
variable {d : Delivery CloudEvent}

def Delivery.ids (d : Delivery CloudEvent) : List String := d.pending.map (·.entryId)

/-- Every pending message can be built. -/
def Delivery.Encodes (sub : Subscription Event CloudEvent) (rawPayload : Bool) (d : Delivery CloudEvent) : Prop :=
  ∀ m ∈ d.pending, fetchEntry sub rawPayload m = none

/-- The entry has a response, which says success only if the entry is settled, or need not be. Otherwise the entry is
pending. -/
def Delivery.Held (idx : AList fun _ : String => Nat) (q : Prop) (x : String) (d : Delivery CloudEvent) : Prop :=
  ∃ err, responseOf idx d.bulkResponses x = some (x, err) ∧ (err = none → Settled d.log x ∨ q) ∧ (err ≠ none → x ∈ d.ids)

/-- The response of the entry is there, without an error. -/
def Delivery.Answered (idx : AList fun _ : String => Nat) (x : String) (d : Delivery CloudEvent) : Prop :=
  responseOf idx d.bulkResponses x = some (x, none)

/-- What holds after an attempt, and what does if it ended well. -/
def After (P Q : Delivery CloudEvent → Prop) (r : Delivery CloudEvent × Option Err) : Prop :=
  P r.1 ∧ (r.2 = none → Q r.1)

theorem mem_ids_accumulator :
    x ∈ (d.accumulator idx es).ids ↔
      x ∈ d.ids ∧ ((responseOf idx (merge idx d.bulkResponses es) x).bind (·.2)).isSome := by
  simp only [Delivery.ids, Delivery.accumulator, mem_map, mem_filter]
  constructor
  · rintro ⟨m, ⟨hm, hfailed⟩, rfl⟩
    exact ⟨⟨m, hm, rfl⟩, hfailed⟩
  · rintro ⟨⟨m, hm, rfl⟩, hfailed⟩
    exact ⟨m, ⟨hm, hfailed⟩, rfl⟩

theorem fetchErrors_eq_nil (h : d.Encodes sub rawPayload) : fetchErrors sub rawPayload d.pending = [] := by
  rw [fetchErrors, filterMap_eq_nil_iff]
  intro m hm
  rw [h m hm, Option.map_none]

theorem attemptMsgs_eq_ids (h : d.Encodes sub rawPayload) : attemptMsgs sub rawPayload d.pending = d.ids := by
  rw [attemptMsgs, filter_eq_self.2 fun m hm => by rw [h m hm]; rfl]
  rfl

theorem mem_fetchErrors {v : Response} (h : v ∈ fetchErrors sub rawPayload d.pending) :
    v.1 ∈ d.ids ∧ ∃ err, v = (v.1, some err) := by
  obtain ⟨m, hm, hv⟩ := mem_filterMap.1 h
  obtain ⟨err, -, rfl⟩ := Option.map_eq_some_iff.1 hv
  exact ⟨mem_map_of_mem hm, err, rfl⟩

/-- What the messages that cannot be built do to a response: nothing, or they set an error. -/
theorem responseOf_fetchErrors (sub : Subscription Event CloudEvent) (rawPayload : Bool) (hinj : Injective idx)
    (hsome : (responseOf idx d.bulkResponses x).isSome) :
    responseOf idx (merge idx d.bulkResponses (fetchErrors sub rawPayload d.pending)) x = responseOf idx d.bulkResponses x ∨
      x ∈ d.ids ∧ ∃ err,
        responseOf idx (merge idx d.bulkResponses (fetchErrors sub rawPayload d.pending)) x = some (x, some err) := by
  by_cases hx : ∃ v ∈ fetchErrors sub rawPayload d.pending, v.1 = x
  · obtain ⟨v, hv, rfl, hr⟩ := responseOf_merge_of_mem hinj hx hsome
    obtain ⟨hmem, err, heq⟩ := mem_fetchErrors hv
    exact .inr ⟨hmem, err, heq ▸ hr⟩
  · exact .inl (responseOf_merge_of_not_mem hinj fun v hv hvx => hx ⟨v, hv, hvx⟩)

/-- What holds after the first attempt, and is kept by each attempt, holds after the last one. What an attempt that
succeeds brings about holds if the last one did. -/
theorem runAttempts_after {P Q : Delivery CloudEvent → Prop}
    (hstep : ∀ d, ∀ b ∈ rest, P d → After P Q (attempt sub rawPayload idx d b))
    (hfirst : After P Q (attempt sub rawPayload idx d a)) : After P Q (runAttempts sub rawPayload idx a rest d) := by
  induction rest generalizing a d with
  | nil => exact hfirst
  | cons b rest ih =>
    simp only [runAttempts]
    split
    · rename_i heq
      rw [heq] at hfirst
      exact ⟨hfirst.1, fun _ => hfirst.2 rfl⟩
    · rename_i heq
      rw [heq] at hfirst
      exact ih (fun d c hc => hstep d c (mem_cons_of_mem _ hc)) (hstep _ b mem_cons_self hfirst.1)

theorem runAttempts_keeps {P : Delivery CloudEvent → Prop}
    (hstep : ∀ d, ∀ b ∈ a :: rest, P d → P (attempt sub rawPayload idx d b).1) (h : P d) :
    P (runAttempts sub rawPayload idx a rest d).1 :=
  (runAttempts_after (Q := fun _ => True) (fun d b hb h => ⟨hstep d b (mem_cons_of_mem _ hb) h, fun _ => trivial⟩)
    ⟨hstep d a mem_cons_self h, fun _ => trivial⟩).1

theorem attempt_encodes (h : d.Encodes sub rawPayload) (idx : AList fun _ : String => Nat) (a : Attempt) :
    (attempt sub rawPayload idx d a).1.Encodes sub rawPayload := by
  cases a with
  | refused | timedOut => exact h
  | unsent | called => exact fun m hm => h m (mem_filter.1 hm).1

/-- What a call does for a pending entry, and for one that the application has answered for before. -/
theorem attempt_called (hinj : Injective idx) (henc : d.Encodes sub rawPayload)
    (hx : x ∈ d.ids ∧ (responseOf idx d.bulkResponses x).isSome ∨ d.Held idx q x) (v1 alpha : Reply) :
    After (·.Held idx q x) (·.Answered idx x) (attempt sub rawPayload idx d (.called v1 alpha)) := by
  simp only [attempt, fetchErrors_eq_nil henc, attemptMsgs_eq_ids henc]
  change Delivery.Held idx q x (Delivery.accumulator ⟨_, _, d.log ++ [.called d.ids (fallback v1 alpha)]⟩ idx
    (respond d.ids d.ids (fallback v1 alpha)).1) ∧ ((respond d.ids d.ids (fallback v1 alpha)).2 = none →
      responseOf idx (merge idx d.bulkResponses (respond d.ids d.ids (fallback v1 alpha)).1) x = some (x, none))
  obtain ⟨hsettles, hcover, hok⟩ := respond_spec d.ids (fallback v1 alpha)
  by_cases hpending : x ∈ d.ids
  · have hsome : (responseOf idx d.bulkResponses x).isSome := by
      rcases hx with hx | ⟨err, hr, -⟩
      · exact hx.2
      · rw [hr]; rfl
    obtain ⟨⟨y, err⟩, hv, rfl, hr⟩ := responseOf_merge_of_mem hinj (hcover x hpending) hsome
    refine ⟨⟨err, hr, fun hnone => ?_, fun hfailed => mem_ids_accumulator.2 ⟨hpending, ?_⟩⟩, fun hnone => ?_⟩
    · exact .inl (settled_concat (by simpa [Happening.settles, hpending] using hsettles _ hv hnone))
    · rw [hr]
      exact Option.isSome_iff_ne_none.2 hfailed
    · rw [hr, show err = none from hok hnone _ hv]
  · -- only a settled entry is not pending
    obtain ⟨err, hr, hsettled, hagain⟩ := hx.resolve_left fun hx => hpending hx.1
    have hnone : err = none := by_contra fun hfailed => hpending (hagain hfailed)
    subst hnone
    have hsame : responseOf idx (merge idx d.bulkResponses (respond d.ids d.ids (fallback v1 alpha)).1) x =
        some (x, none) := by
      rw [responseOf_merge_of_not_mem hinj, hr]
      exact fun v hv heq => hpending (heq ▸ mem_of_respond (List.Subset.refl _) _ v hv)
    exact ⟨⟨none, hsame, fun _ => (hsettled rfl).imp_left (·.mono (subset_append_left _ _)),
      fun h => absurd rfl h⟩, fun _ => hsame⟩

def Attempt.isCalled : Attempt → Bool
  | .called _ _ => true
  | _ => false

theorem Delivery.Held.attempt (hinj : Injective idx) (henc : a.isCalled = true → d.Encodes sub rawPayload)
    (h : d.Held idx q x) : After (·.Held idx q x) (·.Answered idx x) (attempt sub rawPayload idx d a) := by
  cases a with
  | refused | timedOut => exact ⟨h, nofun⟩
  | unsent err =>
    obtain ⟨e, hr, hsettled, hagain⟩ := h
    refine ⟨?_, nofun⟩
    rcases responseOf_fetchErrors sub rawPayload hinj (by rw [hr]; rfl) with hsame | ⟨hx, err', hfetch⟩
    · refine ⟨e, hsame.trans hr, hsettled, fun hfailed => mem_ids_accumulator.2 ⟨hagain hfailed, ?_⟩⟩
      rw [hsame, hr]
      exact Option.isSome_iff_ne_none.2 hfailed
    · refine ⟨some err', hfetch, nofun, fun _ => mem_ids_accumulator.2 ⟨hx, ?_⟩⟩
      rw [hfetch]
      rfl
  | called v1 alpha => exact attempt_called hinj (henc rfl) (.inr h) v1 alpha

/-- What holds of an entry before the first attempt holds after the last one. -/
theorem runAttempts_held (hinj : Injective idx) (henc : (a :: rest).any (·.isCalled) = true → d.Encodes sub rawPayload)
    (h : d.Held idx q x) : (runAttempts sub rawPayload idx a rest d).1.Held idx q x := by
  refine (runAttempts_keeps (P := fun d' => ((a :: rest).any (·.isCalled) = true → d'.Encodes sub rawPayload) ∧
    d'.Held idx q x) ?_ ⟨henc, h⟩).2
  rintro d' b hb ⟨henc', h'⟩
  refine ⟨fun hany => attempt_encodes (henc' hany) idx b, (h'.attempt hinj fun hcalled => henc' ?_).1⟩
  exact any_eq_true.2 ⟨b, hb, hcalled⟩

/-- The first attempt that is not refused and does not time out comes back from the application. -/
def heard : List Attempt → Bool
  | [] => false
  | .refused _ :: rest => heard rest
  | .timedOut _ :: rest => heard rest
  | .unsent _ :: _ => false
  | .called _ _ :: _ => true

theorem any_isCalled_of_heard {attempts : List Attempt} (h : heard attempts = true) :
    attempts.any (·.isCalled) = true := by
  induction attempts with
  | nil => cases h
  | cons a rest ih => cases a <;> simp_all [heard, Attempt.isCalled]

/-- Every attempt is refused or times out, but that the last one may end before the call. -/
def silent : List Attempt → Bool
  | [] => true
  | .refused _ :: rest => silent rest
  | .timedOut _ :: rest => silent rest
  | .unsent _ :: rest => rest.isEmpty
  | .called _ _ :: _ => false

theorem runAttempts_heard (hinj : Injective idx) (hheard : heard (a :: rest)) (henc : d.Encodes sub rawPayload)
    (hx : x ∈ d.ids) (hsome : (responseOf idx d.bulkResponses x).isSome) :
    After (·.Held idx q x) (·.Answered idx x) (runAttempts sub rawPayload idx a rest d) := by
  have hafter : ∀ v1 alpha rest, After (·.Held idx q x) (·.Answered idx x)
      (runAttempts sub rawPayload idx (.called v1 alpha) rest d) := by
    intro v1 alpha rest
    have hfirst := attempt_called (q := q) hinj henc (.inl ⟨hx, hsome⟩) v1 alpha
    have hrun : After (fun d => d.Encodes sub rawPayload ∧ d.Held idx q x) (·.Answered idx x)
        (runAttempts sub rawPayload idx (.called v1 alpha) rest d) := by
      refine runAttempts_after (fun d a _ h => ?_) ⟨⟨attempt_encodes henc idx _, hfirst.1⟩, hfirst.2⟩
      have hnext := h.2.attempt (a := a) hinj fun _ => h.1
      exact ⟨⟨attempt_encodes h.1 idx a, hnext.1⟩, hnext.2⟩
    exact ⟨hrun.1.2, hrun.2⟩
  induction rest generalizing a with
  | nil =>
    cases a with
    | called v1 alpha => exact hafter v1 alpha []
    | refused | timedOut | unsent => cases hheard
  | cons b rest ih =>
    cases a with
    | called v1 alpha => exact hafter v1 alpha (b :: rest)
    | refused | timedOut => exact ih hheard
    | unsent => cases hheard

theorem runAttempts_silent (sub : Subscription Event CloudEvent) (rawPayload : Bool) (hinj : Injective idx)
    (hsilent : silent (a :: rest)) (hsome : (responseOf idx d.bulkResponses x).isSome) :
    (∃ err, (runAttempts sub rawPayload idx a rest d).2 = some err) ∧
      (responseOf idx (runAttempts sub rawPayload idx a rest d).1.bulkResponses x = responseOf idx d.bulkResponses x ∨
        ∃ err, responseOf idx (runAttempts sub rawPayload idx a rest d).1.bulkResponses x = some (x, some err)) := by
  induction rest generalizing a with
  | nil =>
    cases a with
    | refused err | timedOut err => exact ⟨⟨err, rfl⟩, .inl rfl⟩
    | unsent err => exact ⟨⟨err, rfl⟩, (responseOf_fetchErrors sub rawPayload hinj hsome).imp_right (·.2)⟩
    | called v1 alpha => cases hsilent
  | cons b rest ih =>
    cases a with
    | refused | timedOut => exact ih hsilent
    | unsent | called => cases hsilent

/-- Other entries keep their responses. -/
theorem attempt_other (sub : Subscription Event CloudEvent) (rawPayload : Bool) (hinj : Injective idx) (hx : x ∉ d.ids)
    (a : Attempt) :
    responseOf idx (attempt sub rawPayload idx d a).1.bulkResponses x = responseOf idx d.bulkResponses x ∧
      x ∉ (attempt sub rawPayload idx d a).1.ids := by
  have hfetch : ∀ v ∈ fetchErrors sub rawPayload d.pending, v.1 ≠ x := by
    rintro v hv rfl
    exact hx (mem_fetchErrors hv).1
  have hmsgs : attemptMsgs sub rawPayload d.pending ⊆ d.ids := by
    intro y hy
    obtain ⟨m, hm, rfl⟩ := mem_map.1 hy
    exact mem_map_of_mem (mem_filter.1 hm).1
  cases a with
  | refused | timedOut => exact ⟨rfl, hx⟩
  | unsent err => exact ⟨responseOf_merge_of_not_mem hinj hfetch, fun h => hx (mem_ids_accumulator.1 h).1⟩
  | called v1 alpha =>
    refine ⟨responseOf_merge_of_not_mem hinj fun v hv => ?_, fun h => hx (mem_ids_accumulator.1 h).1⟩
    rcases mem_append.1 hv with hv | hv
    · exact hfetch v hv
    · exact fun heq => hx (heq ▸ mem_of_respond hmsgs _ v hv)

theorem attempt_log (sub : Subscription Event CloudEvent) (rawPayload : Bool) (idx : AList fun _ : String => Nat)
    (d : Delivery CloudEvent) (a : Attempt) : d.log ⊆ (attempt sub rawPayload idx d a).1.log := by
  cases a with
  | refused | timedOut | unsent => exact List.Subset.refl _
  | called => exact subset_append_left _ _

theorem length_attempt (sub : Subscription Event CloudEvent) (rawPayload : Bool) (idx : AList fun _ : String => Nat)
    (d : Delivery CloudEvent) (a : Attempt) :
    (attempt sub rawPayload idx d a).1.bulkResponses.length = d.bulkResponses.length := by
  cases a with
  | refused | timedOut => rfl
  | unsent | called => exact length_merge

theorem length_runAttempts :
    (runAttempts sub rawPayload idx a rest d).1.bulkResponses.length = d.bulkResponses.length :=
  runAttempts_keeps
    (fun d' a _ h => (length_attempt sub rawPayload idx d' a).trans h) rfl

theorem runAttempts_other (hinj : Injective idx) (hx : x ∉ d.ids) :
    responseOf idx (runAttempts sub rawPayload idx a rest d).1.bulkResponses x = responseOf idx d.bulkResponses x := by
  refine (runAttempts_keeps (P := fun d' =>
    x ∉ d'.ids ∧ responseOf idx d'.bulkResponses x = responseOf idx d.bulkResponses x) ?_ ⟨hx, rfl⟩).2
  intro d' a _ ⟨hx', hsame⟩
  obtain ⟨hsame', hx''⟩ := attempt_other sub rawPayload hinj hx' a
  exact ⟨hx'', hsame'.trans hsame⟩

theorem runAttempts_log : d.log ⊆ (runAttempts sub rawPayload idx a rest d).1.log :=
  runAttempts_keeps
    (fun d' a _ h => List.Subset.trans h (attempt_log sub rawPayload idx d' a)) (List.Subset.refl _)

end Attempts

section Routes
variable {run : Run} {psm : List (Message CloudEvent)}

theorem touched_of_ne (hx : x ≠ "") (err err' : Option Err) : touched err' x (x, err) = (x, err) := if_neg hx

/-- The entry has a response, which says success only if the entry is settled, or need not be. -/
def Accounted (idx : AList fun _ : String => Nat) (q : Prop) (x : String) (R : List Response) (log : List Happening) :
    Prop :=
  ∃ err, responseOf idx R x = some (x, err) ∧ (err = none → Settled log x ∨ q)

variable {R' : List Response} {err : Option Err}
  (hres : applyBulkSubscribeResiliency sub rawPayload idx run psm R log = (R', log', err))
include hres

/-- What a delivery says about an entry of its own. -/
theorem resiliency_heard (hinj : Injective idx) (hx : x ≠ "") (hheard : heard run.attempts)
    (henc : ∀ m ∈ psm, fetchEntry sub rawPayload m = none) (hmem : x ∈ psm.map (·.entryId))
    (hsome : (responseOf idx R x).isSome) :
    Accounted idx q x R' log' ∧ (err = none → Settled log' x ∨ q) := by
  cases hres
  obtain ⟨⟨e, hr, hsettled, -⟩, hok⟩ := runAttempts_heard (d := ⟨R, psm, log⟩) hinj hheard henc hmem hsome
  refine ⟨⟨e, ?_, hsettled⟩, fun hnone => hsettled ?_⟩
  · rw [responseOf_touchAll hinj, hr, Option.map_some, touched_of_ne hx]
  · have hanswered : responseOf idx _ x = some (x, none) := hok (Option.map_eq_none_iff.1 hnone)
    exact congrArg Prod.snd (Option.some.inj (hr.symm.trans hanswered))

/-- A delivery that does not come back leaves its error with the entries that have no response, whatever their path. -/
theorem resiliency_silent (hinj : Injective idx) (hx : x ≠ "") (hsilent : silent run.attempts)
    (hr : responseOf idx R x = some ("", none)) :
    (∃ e, responseOf idx R' x = some (x, some e)) ∧ err ≠ none := by
  cases hres
  obtain ⟨⟨e, he⟩, hsame⟩ :=
    runAttempts_silent sub rawPayload (d := ⟨R, psm, log⟩) hinj hsilent (x := x) (by rw [hr]; rfl)
  simp only [responseOf_touchAll hinj, he, Option.map_some]
  refine ⟨?_, by simp⟩
  rcases hsame with hsame | ⟨e', hfetch⟩
  · exact ⟨run.interrupted.getD e, by rw [hsame, hr]; rfl⟩
  · exact ⟨e', by rw [hfetch, Option.map_some, touched_of_ne hx]⟩

theorem resiliency_other (hinj : Injective idx) (hmem : x ∉ psm.map (·.entryId)) :
    responseOf idx R' x = (responseOf idx R x).map (touched err x) := by
  cases hres
  rw [responseOf_touchAll hinj, runAttempts_other hinj hmem]

theorem resiliency_log : log ⊆ log' := by
  cases hres
  exact runAttempts_log (d := ⟨R, psm, log⟩)

/-- A delivery with every message built keeps what is so of an entry, its own or not. -/
theorem resiliency_accounted (hinj : Injective idx) (hx : x ≠ "")
    (henc : run.attempts.any (·.isCalled) = true → ∀ m ∈ psm, fetchEntry sub rawPayload m = none)
    (h : Accounted idx q x R log) : Accounted idx q x R' log' := by
  obtain ⟨e, hr, hsettled⟩ := h
  by_cases hmem : x ∈ psm.map (·.entryId)
  · obtain ⟨e', hr', hsettled', -⟩ :=
      runAttempts_held (d := ⟨R, psm, log⟩) hinj henc ⟨e, hr, hsettled, fun _ => hmem⟩
    cases hres
    refine ⟨e', ?_, hsettled'⟩
    rw [responseOf_touchAll hinj, hr', Option.map_some, touched_of_ne hx]
  · refine ⟨e, ?_, fun hnone => (hsettled hnone).imp_left (·.mono (resiliency_log hres))⟩
    rw [resiliency_other hres hinj hmem, hr, Option.map_some, touched_of_ne hx]

omit hres

/-! ## All routes -/

variable {w : World} {p : Prepared CloudEvent} {paths : List String} {s : Invoked}

theorem invoke_log : s.log ⊆ (invoke sub w rawPayload p paths s).log := by
  induction paths generalizing s with
  | nil => exact List.Subset.refl _
  | cons path paths ih =>
    have hpath : s.log ⊆ (invokePath sub w rawPayload p path s).log := resiliency_log rfl
    exact List.Subset.trans hpath ih

theorem length_invoke : (invoke sub w rawPayload p paths s).bulkResponses.length = s.bulkResponses.length := by
  induction paths generalizing s with
  | nil => rfl
  | cons path paths ih =>
    have hpath : (invokePath sub w rawPayload p path s).bulkResponses.length = s.bulkResponses.length := by
      rw [invokePath, applyBulkSubscribeResiliency, length_touchAll, length_runAttempts]
    exact ih.trans hpath

theorem invoke_accounted (hinj : Injective p.entryIdIndexMap) (hx : x ≠ "")
    (henc : ∀ path, (w.run path).attempts.any (·.isCalled) = true →
      ∀ m ∈ p.messages path, fetchEntry sub rawPayload m = none)
    (h : Accounted p.entryIdIndexMap q x s.bulkResponses s.log) :
    Accounted p.entryIdIndexMap q x (invoke sub w rawPayload p paths s).bulkResponses
      (invoke sub w rawPayload p paths s).log := by
  induction paths generalizing s with
  | nil => exact h
  | cons path paths ih => exact ih (resiliency_accounted rfl hinj hx (henc path) h)

theorem invoke_overall (h : (invoke sub w rawPayload p paths s).overallInvokeErr = none) : s.overallInvokeErr = none := by
  induction paths generalizing s with
  | nil => exact h
  | cons path paths ih => exact (Option.or_eq_none_iff.1 (ih h)).2

theorem invoke_err (h : s.err ≠ none) : (invoke sub w rawPayload p paths s).err ≠ none := by
  induction paths generalizing s with
  | nil => exact h
  | cons path paths ih => exact ih fun hnone => h (Option.or_eq_none_iff.1 hnone).2

theorem invoke_err_of_overall (h : s.overallInvokeErr ≠ none → s.err ≠ none)
    (hfailed : (invoke sub w rawPayload p paths s).overallInvokeErr ≠ none) :
    (invoke sub w rawPayload p paths s).err ≠ none := by
  induction paths generalizing s with
  | nil => exact h hfailed
  | cons path paths ih =>
    refine ih (fun hoverall hnone => ?_) hfailed
    obtain ⟨hinvoke, herr⟩ := Option.or_eq_none_iff.1 hnone
    exact h (fun hs => hoverall (Option.or_eq_none_iff.2 ⟨hinvoke, hs⟩)) herr

theorem invoke_heard (hinj : Injective p.entryIdIndexMap) (hx : x ≠ "") {path : String} (hpath : path ∈ paths)
    (hheard : heard (w.run path).attempts)
    (henc : ∀ path, (w.run path).attempts.any (·.isCalled) = true →
      ∀ m ∈ p.messages path, fetchEntry sub rawPayload m = none) (hmem : x ∈ (p.messages path).map (·.entryId))
    (hother : ∀ path', path' ≠ path → x ∉ (p.messages path').map (·.entryId))
    (hsome : (responseOf p.entryIdIndexMap s.bulkResponses x).isSome) :
    Accounted p.entryIdIndexMap q x (invoke sub w rawPayload p paths s).bulkResponses
        (invoke sub w rawPayload p paths s).log ∧
      ((invoke sub w rawPayload p paths s).overallInvokeErr = none →
        Settled (invoke sub w rawPayload p paths s).log x ∨ q) := by
  induction paths generalizing s with
  | nil => cases hpath
  | cons path' paths ih =>
    by_cases heq : path' = path
    · subst heq
      obtain ⟨haccounted, hok⟩ :
          Accounted _ q x (invokePath sub w rawPayload p path' s).bulkResponses (invokePath sub w rawPayload p path' s).log ∧
            _ :=
        resiliency_heard rfl hinj hx hheard (henc path' (any_isCalled_of_heard hheard)) hmem hsome
      rw [invoke]
      refine ⟨invoke_accounted hinj hx henc haccounted, fun hnone => ?_⟩
      have hoverall : (invokePath sub w rawPayload p path' s).overallInvokeErr = none := invoke_overall hnone
      have hsettled : Settled (invokePath sub w rawPayload p path' s).log x ∨ q := hok (Option.or_eq_none_iff.1 hoverall).1
      exact hsettled.imp_left (·.mono invoke_log)
    · apply ih ((mem_cons.1 hpath).resolve_left (Ne.symm heq))
      have hsame : responseOf _ (invokePath sub w rawPayload p path' s).bulkResponses x = _ :=
        resiliency_other rfl hinj (hother path' heq)
      rwa [hsame, Option.isSome_map]

end Routes

end Dapr.BulkSubscription
