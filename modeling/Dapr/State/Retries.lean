import Dapr.State.Bulk
import Mathlib.Data.List.Chain
import Mathlib.Data.List.Dedup
/-!
# What is retried

Each attempt after a failure of some keys should send the requests of the keys that can be retried,
and a call should succeed only if the store has done every request. Both hold of a call in which the
failed keys have the same index in the first list and in the one that was sent, and no etag error
comes together with an error that is retried. For every sequence of answers they hold only where
nothing is ever retried in bulk.
-/

namespace Dapr.State

open List

variable {R : Type} {key : R → String} (errs : List ItemError)

/-! ## What is expected -/

variable (key) in
/-- The visit sent the request and the store did not name it as failed. -/
def Visit.Applied (v : Visit R) (r : R) : Prop :=
  r ∈ v.sent ∧ match v.answer with
    | .done => True
    | .failed => False
    | .items errs => key r ∉ failedKeys errs

variable (key) in
/-- Retries are of the requests that may be retried, and a success means that all were applied. -/
structure Exact (reqs : List R) (t : Trace R) : Prop where
  safe : t.ending ≠ .panicked
  retried : t.visits.IsChain fun v v' => ∀ errs, v.answer = .items errs →
    v'.sent.Perm (reqs.filter fun r => key r ∈ retriableKeys errs)
  complete : t.ending = .returned none → ∀ r ∈ reqs, ∃ v ∈ t.visits, v.Applied key r

variable (key) in
/-- The keys to retry are where they were in the first list, and no etag error is dropped. -/
structure Visit.Steady (reqs : List R) (v : Visit R) : Prop where
  index : ∀ errs, v.answer = .items errs → ∀ k ∈ retriableKeys errs,
    requestWithKey key reqs k = requestWithKey key v.sent k
  kept : ∀ errs, v.answer = .items errs → retriableKeys errs ≠ [] → retriableKeys errs = failedKeys errs

/-! ## One attempt -/

theorem retriableKeys_sublist : (retriableKeys errs).Sublist (failedKeys errs) := by
  induction errs with
  | nil => exact .slnil
  | cons e errs ih =>
    rcases e with ⟨k, _ | kind⟩ | _
    · exact ih.cons_cons k
    · exact ih.cons k
    · exact ih

theorem classify_eq (found : Found) (h : .other ∉ errs) :
    ∃ invalid, classify errs found =
      some ⟨found.canRetry || !(retriableKeys errs).isEmpty, invalid, found.retry ++ retriableKeys errs⟩ := by
  induction errs generalizing found with
  | nil => exact ⟨found.etagInvalid, by simp [classify, retriableKeys]⟩
  | cons e errs ih =>
    have hrest : .other ∉ errs := fun hmem => h (mem_cons_of_mem _ hmem)
    rcases e with ⟨k, _ | kind⟩ | _
    · obtain ⟨invalid, heq⟩ := ih { found with canRetry := true, retry := found.retry ++ [k] } hrest
      exact ⟨invalid, by simpa [classify, retriableKeys, ItemError.retriable?] using heq⟩
    · cases kind with
      | invalid =>
        exact ih { found with etagInvalid := true } hrest
      | mismatch =>
        exact ih found hrest
    · exact absurd mem_cons_self h

theorem classify_eq_none (found : Found) (h : .other ∈ errs) : classify errs found = none := by
  induction errs generalizing found with
  | nil => cases h
  | cons e errs ih =>
    rcases e with ⟨k, _ | kind⟩ | _
    · exact ih _ (by simpa using h)
    · cases kind with
      | invalid | mismatch => exact ih _ (by simpa using h)
    · rfl

/-- What the runner is told of an answer. -/
def Told : Answer → Option (List String) × Option OpError → Prop
  | .done, res => res = (none, none)
  | .failed, res => ∃ err, res = (none, some err)
  | .items errs, res => ∃ err, res = (some (retriableKeys errs), some err) ∧ (retriableKeys errs = [] → err.permanent = true)

theorem told_bulk (err : Option StoreError) : Told (bulkAnswer err) (bulkResult err) := by
  rcases err with _ | _ | errs
  · rfl
  · exact ⟨_, rfl⟩
  · unfold bulkAnswer bulkResult
    dsimp only
    by_cases hfailed : errs = [] ∨ .other ∈ errs
    · rw [if_pos hfailed]
      rcases hfailed with rfl | hother
      · exact ⟨_, rfl⟩
      · rw [classify_eq_none errs _ hother]
        exact ⟨_, ite_self _⟩
    · rw [if_neg hfailed]
      rw [not_or] at hfailed
      obtain ⟨invalid, hfound⟩ := classify_eq errs ⟨false, false, []⟩ hfailed.2
      rw [if_neg (fun h => hfailed.1 (length_eq_zero_iff.1 h)), hfound]
      simp only [Bool.false_or]
      split
      · next hcan => exact ⟨_, rfl, fun hnil => by simp [hnil] at hcan⟩
      · exact ⟨_, rfl, fun _ => rfl⟩

section Attempt
variable {policyDef : Option PolicyDefinition} {reqs rReqs : List R} {a : Attempt key}

theorem told (policyDef : Option PolicyDefinition) (rReqs : List R) (a : Attempt key) :
    Told (answerOf policyDef rReqs a) (result policyDef rReqs a) := by
  unfold answerOf result
  split
  · exact ⟨_, rfl⟩
  · match rReqs with
    | [] => exact told_bulk _
    | [req] =>
      unfold operation
      cases hs : a.single req <;> simp [hs, Told]
    | req :: req' :: rest => exact told_bulk _

/-- Without errors for keys the next attempt sends the same. -/
theorem nextReqs_of_not_items (h : ∀ errs, answerOf policyDef rReqs a ≠ .items errs) :
    nextReqs key reqs rReqs (result policyDef rReqs a).1 = some rReqs := by
  have htold := told policyDef rReqs a
  cases hans : answerOf policyDef rReqs a with
  | done =>
    rw [hans] at htold
    rw [show result policyDef rReqs a = (none, none) from htold]
    rfl
  | failed =>
    rw [hans] at htold
    obtain ⟨err, hres⟩ := htold
    rw [hres]
    rfl
  | items errs => exact absurd hans (h errs)

theorem reported_of_items {errs : List ItemError} (h : answerOf policyDef rReqs a = .items errs) :
    (failedKeys errs).Nodup ∧ failedKeys errs ⊆ rReqs.map key := by
  have hbulk : ∀ rs, bulkAnswer (a.multi rs) = .items errs → (failedKeys errs).Nodup ∧ failedKeys errs ⊆ rs.map key := by
    intro rs hrs
    rcases hm : a.multi rs with _ | _ | errs'
    · simp [hm, bulkAnswer] at hrs
    · simp [hm, bulkAnswer] at hrs
    · rw [hm, bulkAnswer] at hrs
      split at hrs
      · cases hrs
      · cases hrs
        exact a.reported rs errs hm
  unfold answerOf at h
  split at h
  · cases h
  · match rReqs with
    | [] => exact hbulk [] h
    | [req] =>
      dsimp only at h
      split at h <;> cases h
    | req :: req' :: rest => exact hbulk _ h

end Attempt

/-! ## The accumulator -/

section Accumulate
variable {reqs rReqs : List R}

theorem requestWithKey_of_mem {k : String} (h : k ∈ rReqs.map key) :
    ∃ i r, requestWithKey key rReqs k = some i ∧ rReqs[i]? = some r ∧ key r = k := by
  obtain ⟨r, hr, hk⟩ := mem_map.1 h
  have hsome : (requestWithKey key rReqs k).isSome := by
    rw [requestWithKey, findIdx?_isSome, any_eq_true]
    exact ⟨r, hr, by simpa using hk⟩
  obtain ⟨i, hi⟩ := Option.isSome_iff_exists.1 hsome
  obtain ⟨hlt, hkey, -⟩ := findIdx?_eq_some_iff_getElem.1 hi
  exact ⟨i, rReqs[i], hi, getElem?_eq_getElem hlt, by simpa using hkey⟩

/-- Where the indices agree, the accumulator finds the requests of the keys. -/
theorem accumulate_of_index {retry : List String} (hmem : retry ⊆ rReqs.map key)
    (hindex : ∀ k ∈ retry, requestWithKey key reqs k = requestWithKey key rReqs k) :
    ∃ newReqs, accumulate key reqs rReqs retry = some newReqs ∧ newReqs.map key = retry ∧ newReqs ⊆ rReqs := by
  induction retry with
  | nil => exact ⟨[], rfl, rfl, nil_subset _⟩
  | cons k retry ih =>
    obtain ⟨newReqs, heq, hkeys, hsub⟩ := ih (fun k hk => hmem (mem_cons_of_mem _ hk))
      fun k hk => hindex k (mem_cons_of_mem _ hk)
    obtain ⟨i, r, hi, hr, hk⟩ := requestWithKey_of_mem (hmem mem_cons_self)
    refine ⟨r :: newReqs, ?_, by simp [hk, hkeys], cons_subset.2 ⟨mem_of_getElem? hr, hsub⟩⟩
    rw [accumulate, hindex k mem_cons_self, hi]
    simp only [hr, heq, Option.map_some]

/-- The requests of some keys are those of the list that have them. -/
theorem perm_filter_of_keys {newReqs : List R} {ks : List String} (hreqs : (reqs.map key).Nodup) (hks : ks.Nodup)
    (hkeys : newReqs.map key = ks) (hsub : newReqs ⊆ reqs) : newReqs.Perm (reqs.filter fun r => key r ∈ ks) := by
  have hnodup : newReqs.Nodup := Nodup.of_map key (hkeys ▸ hks)
  refine (perm_ext_iff_of_nodup hnodup ((Nodup.of_map key hreqs).filter _)).2 fun r => ?_
  rw [mem_filter, decide_eq_true_iff, ← hkeys]
  constructor
  · exact fun hr => ⟨hsub hr, mem_map_of_mem hr⟩
  · rintro ⟨hr, hk⟩
    obtain ⟨r', hr', heq⟩ := mem_map.1 hk
    exact inj_on_of_nodup_map hreqs (hsub hr') hr heq ▸ hr'

end Accumulate

/-! ## Whole calls -/

section Calls
variable {policyDef : Option PolicyDefinition} {reqs rReqs : List R} {a : Attempt key}

variable (key) in
/-- The requests that an attempt should leave for the next one: those that failed and can be retried, or the same. -/
def Next (reqs rReqs : List R) : Answer → List R → Prop
  | .items errs, newReqs => newReqs.Perm (reqs.filter fun r => key r ∈ retriableKeys errs)
  | _, newReqs => newReqs = rReqs

theorem next_of_index (hreqs : (reqs.map key).Nodup) (hsub : rReqs ⊆ reqs)
    (hindex : ∀ errs, answerOf policyDef rReqs a = .items errs → ∀ k ∈ retriableKeys errs,
      requestWithKey key reqs k = requestWithKey key rReqs k) :
    ∃ newReqs, nextReqs key reqs rReqs (result policyDef rReqs a).1 = some newReqs ∧ newReqs ⊆ rReqs ∧
      Next key reqs rReqs (answerOf policyDef rReqs a) newReqs := by
  cases hans : answerOf policyDef rReqs a with
  | done | failed => exact ⟨rReqs, nextReqs_of_not_items fun errs h => by simp [hans] at h, List.Subset.refl _, rfl⟩
  | items errs =>
    have htold := told policyDef rReqs a
    rw [hans] at htold
    obtain ⟨err, hres, -⟩ := htold
    obtain ⟨hnodup, hmem⟩ := reported_of_items hans
    have hretry : retriableKeys errs ⊆ rReqs.map key := fun k hk => hmem ((retriableKeys_sublist errs).subset hk)
    obtain ⟨newReqs, heq, hkeys, hnew⟩ := accumulate_of_index hretry (hindex errs hans)
    rw [hres]
    refine ⟨newReqs, heq, hnew, ?_⟩
    exact perm_filter_of_keys hreqs (hnodup.sublist (retriableKeys_sublist errs)) hkeys fun r hr => hsub (hnew hr)

/-- A request that was sent has been done, or is sent again. -/
theorem applied_or_next {newReqs : List R} {r : R} (hsub : rReqs ⊆ reqs)
    (hsteady : Visit.Steady key reqs ⟨rReqs, answerOf policyDef rReqs a⟩)
    (hnext : Next key reqs rReqs (answerOf policyDef rReqs a) newReqs)
    (hsome : ∀ errs, answerOf policyDef rReqs a = .items errs → retriableKeys errs ≠ []) (hr : r ∈ rReqs) :
    Visit.Applied key ⟨rReqs, answerOf policyDef rReqs a⟩ r ∨ r ∈ newReqs := by
  have hkept := hsteady.kept
  cases hans : answerOf policyDef rReqs a with
  | done => exact .inl ⟨hr, trivial⟩
  | failed =>
    rw [hans] at hnext
    exact .inr (hnext ▸ hr)
  | items errs =>
    rw [hans] at hnext
    by_cases hfailed : key r ∈ failedKeys errs
    · refine .inr (hnext.mem_iff.2 (mem_filter.2 ⟨hsub hr, ?_⟩))
      rw [decide_eq_true_iff, hkept errs hans (hsome errs hans)]
      exact hfailed
    · exact .inl ⟨hr, hfailed⟩

/-- What the first attempt can come to. -/
inductive First (policyDef : Option PolicyDefinition) (reqs rReqs : List R) (made : Nat) (a : Attempt key)
    (rest : List (Attempt key)) : Trace R → Prop where
  | refused : First policyDef reqs rReqs made a rest ⟨[], .returned (some .breaker)⟩
  | panicked (hnext : nextReqs key reqs rReqs (result policyDef rReqs a).1 = none) :
    First policyDef reqs rReqs made a rest ⟨[⟨rReqs, answerOf policyDef rReqs a⟩], .panicked⟩
  | succeeded (herr : (result policyDef rReqs a).2 = none) :
    First policyDef reqs rReqs made a rest ⟨[⟨rReqs, answerOf policyDef rReqs a⟩], .returned none⟩
  | failed (err : OpError) :
    First policyDef reqs rReqs made a rest ⟨[⟨rReqs, answerOf policyDef rReqs a⟩], .returned (some err.cause)⟩
  | again (newReqs : List R) (err : OpError)
    (hnext : nextReqs key reqs rReqs (result policyDef rReqs a).1 = some newReqs)
    (herr : (result policyDef rReqs a).2 = some err) (hretries : retries policyDef made a err = true) :
    First policyDef reqs rReqs made a rest
      ⟨⟨rReqs, answerOf policyDef rReqs a⟩ :: (attempts policyDef reqs newReqs (made + 1) rest).visits,
        (attempts policyDef reqs newReqs (made + 1) rest).ending⟩

theorem attempts_first (policyDef : Option PolicyDefinition) (reqs rReqs : List R) (made : Nat) (a : Attempt key)
    (rest : List (Attempt key)) :
    First policyDef reqs rReqs made a rest (attempts policyDef reqs rReqs made (a :: rest)) := by
  rw [attempts]
  split
  · exact .refused
  · dsimp only
    cases hnext : nextReqs key reqs rReqs (result policyDef rReqs a).1 with
    | none => exact .panicked hnext
    | some newReqs =>
      cases herr : (result policyDef rReqs a).2 with
      | none => exact .succeeded herr
      | some err =>
        dsimp only
        split
        · next hretries => exact .again newReqs err hnext herr hretries
        · exact .failed err

theorem not_permanent_of_retries {made : Nat} {err : OpError} (h : retries policyDef made a err = true) :
    err.permanent = false := by
  unfold retries at h
  split at h
  · cases h
  · simp only [Bool.and_eq_true, Bool.not_eq_true'] at h
    exact h.1.1.1

theorem done_of_succeeded (h : (result policyDef rReqs a).2 = none) : answerOf policyDef rReqs a = .done := by
  have htold := told policyDef rReqs a
  cases hans : answerOf policyDef rReqs a with
  | done => rfl
  | failed =>
    rw [hans] at htold
    obtain ⟨err, hres⟩ := htold
    rw [hres] at h
    cases h
  | items errs =>
    rw [hans] at htold
    obtain ⟨err, hres, -⟩ := htold
    rw [hres] at h
    cases h

variable (key) in
/-- As `Exact`, for the attempts from a part of the requests on. -/
structure ExactFrom (reqs rReqs : List R) (t : Trace R) : Prop where
  safe : t.ending ≠ .panicked
  first : ∀ v ∈ t.visits.head?, v.sent = rReqs
  retried : t.visits.IsChain fun v v' => ∀ errs, v.answer = .items errs →
    v'.sent.Perm (reqs.filter fun r => key r ∈ retriableKeys errs)
  complete : t.ending = .returned none → ∀ r ∈ rReqs, ∃ v ∈ t.visits, v.Applied key r

theorem attempts_of_steady (hreqs : (reqs.map key).Nodup) (as : List (Attempt key)) :
    ∀ (rReqs : List R) (made : Nat), rReqs ⊆ reqs →
      (∀ v ∈ (attempts policyDef reqs rReqs made as).visits, v.Steady key reqs) →
      ExactFrom key reqs rReqs (attempts policyDef reqs rReqs made as) := by
  induction as with
  | nil =>
    intro rReqs made _ _
    exact ⟨by simp [attempts], by simp [attempts], .nil, by simp [attempts]⟩
  | cons a rest ih =>
    intro rReqs made hsub hsteady
    have hfirst := attempts_first policyDef reqs rReqs made a rest
    generalize attempts policyDef reqs rReqs made (a :: rest) = t at hfirst hsteady
    cases hfirst with
    | refused => exact ⟨by simp, by simp, .nil, by simp⟩
    | panicked hnone =>
      obtain ⟨newReqs, hsome, -⟩ := next_of_index hreqs hsub (hsteady _ mem_cons_self).index
      rw [hnone] at hsome
      cases hsome
    | succeeded herr =>
      refine ⟨by simp, by simp, .singleton _, fun _ r hr => ⟨_, mem_cons_self, hr, ?_⟩⟩
      rw [done_of_succeeded herr]
      trivial
    | failed err => exact ⟨by simp, by simp, .singleton _, by simp⟩
    | again newReqs err hnext herr hretries =>
      have hvisit := hsteady _ mem_cons_self
      obtain ⟨newReqs', hnext', hnew, hexpected⟩ := next_of_index hreqs hsub hvisit.index
      obtain rfl : newReqs = newReqs' := Option.some.inj (hnext.symm.trans hnext')
      have hrest := ih newReqs (made + 1) (fun r hr => hsub (hnew hr)) fun v hv => hsteady v (mem_cons_of_mem _ hv)
      refine ⟨hrest.safe, by simp, hrest.retried.cons fun v hv errs hans => ?_, fun hnil r hr => ?_⟩
      · rw [hrest.first v hv]
        have hans : answerOf policyDef rReqs a = .items errs := hans
        rwa [hans] at hexpected
      · -- an error that is retried is not permanent, so some key can be retried
        have hsome : ∀ errs, answerOf policyDef rReqs a = .items errs → retriableKeys errs ≠ [] := by
          intro errs hans hempty
          have htold := told policyDef rReqs a
          rw [hans] at htold
          obtain ⟨err', hres, hpermanent⟩ := htold
          obtain rfl : err' = err := by
            rw [hres] at herr
            exact Option.some.inj herr
          rw [not_permanent_of_retries hretries] at hpermanent
          cases hpermanent hempty
        rcases applied_or_next hsub hvisit hexpected hsome hr with happlied | hmem
        · exact ⟨_, mem_cons_self, happlied⟩
        · obtain ⟨v, hv, happlied⟩ := hrest.complete hnil r hmem
          exact ⟨v, mem_cons_of_mem _ hv, happlied⟩

theorem exact_of_steady (hreqs : (reqs.map key).Nodup) (as : List (Attempt key))
    (hsteady : ∀ v ∈ (performBulkStoreOperation policyDef reqs as).visits, v.Steady key reqs) :
    Exact key reqs (performBulkStoreOperation policyDef reqs as) :=
  have h := attempts_of_steady hreqs as reqs 0 (List.Subset.refl _) hsteady
  ⟨h.safe, h.retried, h.complete⟩

/-! ## Calls that retry nothing in bulk -/

/-- A single request is never answered key by key. -/
theorem answerOf_ne_items (h : reqs.length ≤ 1) (errs : List ItemError) : answerOf policyDef reqs a ≠ .items errs := by
  intro hans
  obtain ⟨-, hmem⟩ := reported_of_items hans
  unfold answerOf at hans
  split at hans
  · cases hans
  · match reqs with
    | [] =>
      -- there is no key that the store could report
      have hnone : ∀ e ∈ errs, e = .other := by
        intro e he
        rcases e with ⟨k, etag⟩ | _
        · cases hmem (mem_filterMap.2 ⟨_, he, rfl⟩)
        · rfl
      rcases hm : a.multi [] with _ | _ | errs'
      · simp [hm, bulkAnswer] at hans
      · simp [hm, bulkAnswer] at hans
      · simp only [hm, bulkAnswer] at hans
        split at hans
        · cases hans
        · next hfailed =>
          cases hans
          rw [not_or] at hfailed
          obtain ⟨e, he⟩ := exists_mem_of_ne_nil _ hfailed.1
          exact hfailed.2 (hnone e he ▸ he)
    | [req] =>
      dsimp only at hans
      split at hans <;> cases hans
    | _ :: _ :: _ => simp at h

theorem steady_of_single (h : reqs.length ≤ 1) (as : List (Attempt key)) :
    ∀ made, ∀ v ∈ (attempts policyDef reqs reqs made as).visits, v.Steady key reqs := by
  have hvisit : ∀ a : Attempt key, Visit.Steady key reqs ⟨reqs, answerOf policyDef reqs a⟩ := fun a =>
    ⟨fun errs hans => absurd hans (answerOf_ne_items h errs), fun errs hans => absurd hans (answerOf_ne_items h errs)⟩
  induction as with
  | nil => simp [attempts]
  | cons a rest ih =>
    intro made
    have hfirst := attempts_first policyDef reqs reqs made a rest
    generalize attempts policyDef reqs reqs made (a :: rest) = t at hfirst
    cases hfirst with
    | refused => simp
    | panicked | succeeded | failed => simpa using hvisit a
    | again newReqs err hnext =>
      obtain rfl : reqs = newReqs :=
        Option.some.inj ((nextReqs_of_not_items fun errs => answerOf_ne_items h errs).symm.trans hnext)
      exact forall_mem_cons.2 ⟨hvisit a, ih (made + 1)⟩

theorem exact_of_no_retries (hreqs : (reqs.map key).Nodup) (h : hasRetries policyDef = false)
    (as : List (Attempt key)) : Exact key reqs (performBulkStoreOperation policyDef reqs as) := by
  unfold performBulkStoreOperation
  cases as with
  | nil => exact ⟨by simp [attempts], .nil, by simp [attempts]⟩
  | cons a rest =>
    have hfirst := attempts_first policyDef reqs reqs 0 a rest
    generalize attempts policyDef reqs reqs 0 (a :: rest) = t at hfirst
    cases hfirst with
    | refused => exact ⟨by simp, .nil, by simp⟩
    | panicked hnone =>
      have hindex : ∀ errs, answerOf policyDef reqs a = .items errs → ∀ k ∈ retriableKeys errs,
          requestWithKey key reqs k = requestWithKey key reqs k := fun _ _ _ _ => rfl
      obtain ⟨newReqs, hsome, -⟩ := next_of_index hreqs (List.Subset.refl reqs) hindex
      rw [hnone] at hsome
      cases hsome
    | succeeded herr =>
      refine ⟨by simp, .singleton _, fun _ r hr => ⟨_, mem_cons_self, hr, ?_⟩⟩
      rw [done_of_succeeded herr]
      trivial
    | failed err => exact ⟨by simp, .singleton _, by simp⟩
    | again newReqs err _ _ hretries =>
      cases policyDef with
      | none => cases hretries
      | some p =>
        cases hmax : p.maxRetries with
        | none => simp [retries, hmax] at hretries
        | some max => simp_all [retries, hasRetries]

/-! ## Calls that go wrong -/

variable (key) in
/-- A store that answers for each key. -/
def answering (fails : String → Option (Option ETagKind)) : Attempt key where
  single := fun r => (fails (key r)).map Option.isSome
  multi := fun sent =>
    let errs := (sent.map key).dedup.filterMap fun k => (fails k).map (ItemError.bulk k)
    if errs = [] then none else some (.multi errs)
  late := false
  refused := false
  excluded := false
  stop := false
  reported := by
    intro sent errs h
    dsimp only at h
    split at h
    · cases h
    · cases h
      have hkeys : ∀ l : List String, failedKeys (l.filterMap fun k => (fails k).map (ItemError.bulk k)) =
          l.filter fun k => (fails k).isSome := by
        intro l
        induction l with
        | nil => rfl
        | cons k l ih =>
          cases hk : fails k <;> simp_all [failedKeys, ItemError.key?]
      rw [hkeys]
      refine ⟨(nodup_dedup _).filter _, fun k hk => ?_⟩
      exact mem_dedup.1 (mem_filter.1 hk).1

/-- The first key fails with an etag error, and the second can be retried. -/
def mixed (k₁ k₂ : String) : String → Option (Option ETagKind) := fun k =>
  if k = k₁ then some (some .mismatch) else if k = k₂ then some none else none

section Mixed
variable {r₁ r₂ : R} {rest : List R}

theorem multi_mixed (hreqs : ((r₁ :: r₂ :: rest).map key).Nodup) :
    (answering key (mixed (key r₁) (key r₂))).multi (r₁ :: r₂ :: rest) =
      some (.multi [.bulk (key r₁) (some .mismatch), .bulk (key r₂) none]) := by
  obtain ⟨hfirst, hsecond⟩ := nodup_cons.1 hreqs
  have hkeys : key r₁ ≠ key r₂ := fun heq => hfirst (heq ▸ mem_cons_self)
  have hrest : (rest.map key).filterMap (fun k => (mixed (key r₁) (key r₂) k).map (ItemError.bulk k)) = [] := by
    refine filterMap_eq_nil_iff.2 fun k hk => ?_
    have h₁ : k ≠ key r₁ := fun heq => hfirst (heq ▸ mem_cons_of_mem _ hk)
    have h₂ : k ≠ key r₂ := fun heq => (nodup_cons.1 hsecond).1 (heq ▸ hk)
    simp [mixed, h₁, h₂]
  simp only [answering, Nodup.dedup hreqs]
  simp only [map_cons, filterMap_cons, hrest]
  simp [mixed, hkeys.symm]

/-- The call succeeds at the second attempt, to which the first request does not come. -/
theorem trace_mixed {p : PolicyDefinition} {max : Int} (hmax : p.maxRetries = some max) (hne : max ≠ 0)
    (hreqs : ((r₁ :: r₂ :: rest).map key).Nodup) :
    performBulkStoreOperation (some p) (r₁ :: r₂ :: rest)
        [answering key (mixed (key r₁) (key r₂)), answering key fun _ => none] =
      ⟨[⟨r₁ :: r₂ :: rest, .items [.bulk (key r₁) (some .mismatch), .bulk (key r₂) none]⟩, ⟨[r₂], .done⟩],
        .returned none⟩ := by
  have hkeys : key r₁ ≠ key r₂ := fun heq => (nodup_cons.1 hreqs).1 (heq ▸ mem_cons_self)
  have hindex : requestWithKey key (r₁ :: r₂ :: rest) (key r₂) = some 1 := by
    simp [requestWithKey, findIdx?_cons, hkeys]
  have hagain : max < 0 ∨ 0 < max := by omega
  have hmulti := multi_mixed hreqs
  generalize hfails : mixed (key r₁) (key r₂) = fails at hmulti
  have hlate : ∀ f, (answering key f).late = false := fun _ => rfl
  have hrefused : ∀ f, (answering key f).refused = false := fun _ => rfl
  have hexcluded : (answering key fails).excluded = false := rfl
  have hstop : (answering key fails).stop = false := rfl
  have hsingle : (answering key fun _ => none).single r₂ = none := rfl
  simp [performBulkStoreOperation, attempts, result, operation, answerOf, bulkAnswer, bulkResult, classify, nextReqs,
    accumulate, retries, hmulti, hindex, hmax, hagain, hlate, hrefused, hexcluded, hstop, hsingle]

theorem not_exact_of_two (hreqs : ((r₁ :: r₂ :: rest).map key).Nodup) (h : hasRetries policyDef = true) :
    ∃ as : List (Attempt key), ¬Exact key (r₁ :: r₂ :: rest)
      (performBulkStoreOperation policyDef (r₁ :: r₂ :: rest) as) := by
  obtain ⟨p, rfl⟩ : ∃ p, policyDef = some p := by
    cases policyDef with
    | none => cases h
    | some p => exact ⟨p, rfl⟩
  obtain ⟨max, hmax⟩ : ∃ max, p.maxRetries = some max := by
    cases hm : p.maxRetries with
    | none => simp [hasRetries, hm] at h
    | some max => exact ⟨max, rfl⟩
  have hne : max ≠ 0 := by simpa [hasRetries, hmax] using h
  refine ⟨[answering key (mixed (key r₁) (key r₂)), answering key fun _ => none], fun hexact => ?_⟩
  rw [trace_mixed hmax hne hreqs] at hexact
  obtain ⟨v, hv, hsent, happlied⟩ := hexact.complete rfl r₁ mem_cons_self
  simp only [mem_cons, not_mem_nil, or_false] at hv
  rcases hv with rfl | rfl
  · exact happlied (by simp [failedKeys, ItemError.key?])
  · refine (nodup_cons.1 hreqs).1 ?_
    rw [mem_singleton.1 hsent]
    exact mem_cons_self

end Mixed

/-- A call does what it should for every sequence of answers exactly if there is one request at most or no retry. Where
there are retries, it does so if the keys to retry keep their index and no etag error comes with them. -/
theorem bulk_retries_iff (policyDef : Option PolicyDefinition) (reqs : List R) (hreqs : (reqs.map key).Nodup) :
    ((∀ as : List (Attempt key), Exact key reqs (performBulkStoreOperation policyDef reqs as)) ↔
        reqs.length ≤ 1 ∨ hasRetries policyDef = false) ∧
      ∀ as : List (Attempt key), (∀ v ∈ (performBulkStoreOperation policyDef reqs as).visits, v.Steady key reqs) →
        Exact key reqs (performBulkStoreOperation policyDef reqs as) := by
  refine ⟨⟨fun hexact => ?_, fun h as => ?_⟩, exact_of_steady hreqs⟩
  · refine Classical.byContradiction fun hnot => ?_
    rw [not_or, Bool.not_eq_false] at hnot
    match reqs with
    | [] => simp at hnot
    | [_] => simp at hnot
    | r₁ :: r₂ :: rest =>
      obtain ⟨as, hwrong⟩ := not_exact_of_two hreqs hnot.2
      exact hwrong (hexact as)
  · rcases h with hlen | hnone
    · exact exact_of_steady hreqs as (steady_of_single hlen as 0)
    · exact exact_of_no_retries hreqs hnone as

/-- A store in which some keys fail and can be retried. -/
def retriably (ks : List String) : Attempt id := answering id fun k => if k ∈ ks then some none else none

def threeRetries : Option PolicyDefinition := some ⟨false, false, some 3⟩

/-- The first of three requests fails, and is sent again. -/
theorem bulk_retries_iff_first :
    Exact id ["a", "b", "c"] (performBulkStoreOperation threeRetries ["a", "b", "c"] [retriably ["a"], retriably []]) := by
  refine (bulk_retries_iff threeRetries ["a", "b", "c"] (by decide)).2 [retriably ["a"], retriably []] ?_
  refine forall_mem_cons.2 ⟨⟨fun errs h => ?_, fun errs h _ => ?_⟩, forall_mem_singleton.2 ⟨?_, ?_⟩⟩
  · cases h
    decide
  · cases h
    decide
  · exact fun _ h => nomatch h
  · exact fun _ h => nomatch h

/-- Of `b` and `c`, sent for the second time, `c` fails again: its index in the first list is out of bounds. If `b` fails
again, `c` is sent in its place, and the call succeeds without `b`. -/
theorem index_of_other_list :
    (performBulkStoreOperation threeRetries ["a", "b", "c"] [retriably ["b", "c"], retriably ["c"]]).ending = .panicked ∧
    (performBulkStoreOperation threeRetries ["a", "b", "c"]
        [retriably ["b", "c"], retriably ["b"], retriably []]).visits =
      [⟨["a", "b", "c"], .items [.bulk "b" none, .bulk "c" none]⟩, ⟨["b", "c"], .items [.bulk "b" none]⟩,
        ⟨["c"], .done⟩] ∧
    (performBulkStoreOperation threeRetries ["a", "b", "c"]
        [retriably ["b", "c"], retriably ["b"], retriably []]).ending = .returned none :=
  ⟨rfl, rfl, rfl⟩

end Calls

end Dapr.State
