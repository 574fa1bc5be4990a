import Dapr.Lib.Runs
import Dapr.Lib.Threads
/-!
# Bulk publishing under a resiliency policy

A bulk request is published in attempts. Each attempt takes the entries that are still to be sent, and
after an answer with failed entries only those are sent from then on. With a timeout an attempt runs in
a goroutine of its own: when it is late, the runner goes on without it and without its answer, but the
goroutine may still take its entries, send them and be answered.

Entries are known by their ids, which are distinct. A component that names failed entries has accepted
the other ones that it was sent; without an error and without failed entries it has accepted all.
-/

namespace Dapr.BulkPublish

open Lib.Threads Lib.Runs List

variable {ι : Type}

/-! ## The policy and the component -/

/-- No retries are `none`; a negative maximum is no bound. -/
structure PolicyDefinition where
  timeout : Bool
  breaker : Bool
  maxRetries : Option Int
  deriving DecidableEq, Repr

inductive Err where
  | timeout
  | cancelled
  | breaker
  | other
  deriving DecidableEq, Repr

/-- What the component answers: the failed entries and an error. -/
structure Response (ι : Type) where
  failedEntries : List ι
  err : Option Err
  deriving DecidableEq, Repr

/-- The component has accepted an entry of the request. -/
def Response.Accepts (res : Response ι) (e : ι) : Prop :=
  (res.failedEntries ≠ [] ∧ e ∉ res.failedEntries) ∨ (res.failedEntries = [] ∧ res.err = none)

/-! ## Attempts -/

/-- Where the goroutine of an attempt is: it takes its entries, sends them and is answered. An answer that the runner
gets in time is `received`. -/
inductive Attempt (ι : Type) where
  | started
  | loaded (entries : List ι)
  | sent (entries : List ι)
  | answered (entries : List ι) (res : Response ι)
  | received (entries : List ι) (res : Response ι)
  deriving DecidableEq, Repr

/-- The runner is about to begin an attempt, waits for one, has one that failed, or is done. -/
inductive Runner (ι : Type) where
  | ready
  | waiting (i : Nat)
  | failed (failedEntries : List ι) (err : Err)
  | finished (failedEntries : List ι) (err : Option Err)
  deriving DecidableEq, Repr

/-- `requestEntries` are still to be sent. `sends` records what the component was sent, attempt by attempt. -/
structure State (ι : Type) where
  requestEntries : List ι
  attempts : List (Attempt ι)
  runner : Runner ι
  made : Nat
  sends : List (Nat × List ι)
  deriving DecidableEq, Repr

def State.start (req : List ι) : State ι := ⟨req, [], .ready, 0, []⟩

section
variable [DecidableEq ι]

def accumulator (res : List ι) (requestEntries : List ι) : List ι :=
  if res.length = 0 then requestEntries else requestEntries.filter (· ∈ res)

/-- The failed entries that are returned: those still to be sent, if there is an error and the last response has
none or does not count. -/
def returned (requestEntries res : List ι) (err : Option Err) : List ι :=
  if err ≠ none ∧ (res.length = 0 ∨ err = some .timeout ∨ err = some .breaker) then requestEntries else res

/-- An answer without an error ends the run. -/
def afterAnswer (requestEntries : List ι) (res : Response ι) : Runner ι :=
  match res.err with
  | none => .finished (returned requestEntries res.failedEntries none) none
  | some err => .failed res.failedEntries err

/-- What the runner and its attempts do. -/
inductive Label (ι : Type) where
  | begin
  | refuse
  | load (i : Nat)
  | send (i : Nat)
  | answer (i : Nat) (res : Response ι)
  | receive
  | late (err : Err)
  | retry
  | stop (err : Err)

def PolicyDefinition.retries (p : PolicyDefinition) (made : Nat) : Bool :=
  p.maxRetries.any fun max => decide (max < 0 ∨ (made : Int) < max)

def next (policyDef : Option PolicyDefinition) (s : State ι) : Label ι → Option (State ι)
  | .begin =>
    if s.runner = .ready then
      some { s with attempts := s.attempts ++ [.started], runner := .waiting s.attempts.length }
    else none
  -- the circuit breaker does not let the attempt through; this error is not retried
  | .refuse =>
    if s.runner = .ready ∧ policyDef.any (·.breaker) then
      some { s with runner := .finished (returned s.requestEntries [] (some .breaker)) (some .breaker) }
    else none
  | .load i =>
    match s.attempts[i]? with
    | some .started => some { s with attempts := s.attempts.set i (.loaded s.requestEntries) }
    | _ => none
  | .send i =>
    match s.attempts[i]? with
    | some (.loaded entries) =>
      some { s with attempts := s.attempts.set i (.sent entries), sends := s.sends ++ [(i, entries)] }
    | _ => none
  | .answer i res =>
    match s.attempts[i]? with
    | some (.sent entries) => some { s with attempts := s.attempts.set i (.answered entries res) }
    | _ => none
  | .receive =>
    match s.runner with
    | .waiting i =>
      match s.attempts[i]? with
      | some (.answered entries res) =>
        some { s with
          requestEntries := accumulator res.failedEntries s.requestEntries
          attempts := s.attempts.set i (.received entries res)
          runner := afterAnswer (accumulator res.failedEntries s.requestEntries) res }
      | _ => none
    | _ => none
  -- the deadline passes, or the context ends, before the answer or while it is looked at
  | .late err =>
    match s.runner with
    | .waiting _ =>
      if policyDef.any (·.timeout) ∧ (err = .timeout ∨ err = .cancelled) then some { s with runner := .failed [] err }
      else none
    | _ => none
  | .retry =>
    match s.runner with
    | .failed _ _ =>
      if policyDef.any (·.retries s.made) then some { s with runner := .ready, made := s.made + 1 } else none
    | _ => none
  -- the error is the last one, or that of the context while the runner waits to retry
  | .stop err =>
    match s.runner with
    | .failed res last =>
      if err = last ∨ err = .cancelled ∨ err = .timeout then
        some { s with runner := .finished (returned s.requestEntries res (some err)) (some err) }
      else none
    | _ => none

end

/-! ## What holds in every run -/

section
variable {policyDef : Option PolicyDefinition} {req : List ι} {s s' : State ι} {a b : Attempt ι} {e : ι} {i : Nat}

def Attempt.entries? : Attempt ι → Option (List ι)
  | .started => none
  | .loaded entries => some entries
  | .sent entries => some entries
  | .answered entries _ => some entries
  | .received entries _ => some entries

def Attempt.answer? : Attempt ι → Option (Response ι)
  | .answered _ res => some res
  | .received _ res => some res
  | _ => none

/-- The attempt sent the entry and the broker accepted it. -/
def Attempt.Accepted (a : Attempt ι) (e : ι) : Prop :=
  ∃ entries res, a.entries? = some entries ∧ a.answer? = some res ∧ e ∈ entries ∧ res.Accepts e

/-- The component reported an entry as accepted, by naming failed ones, and the runner got the answer in time. -/
def Attempt.Reported (a : Attempt ι) (e : ι) : Prop :=
  ∃ entries res, a = .received entries res ∧ e ∈ entries ∧ res.failedEntries ≠ [] ∧ e ∉ res.failedEntries

theorem Attempt.Reported.accepted (h : a.Reported e) : a.Accepted e := by
  obtain ⟨entries, res, rfl, he, hsome, hnot⟩ := h
  exact ⟨entries, res, rfl, rfl, he, .inl ⟨hsome, hnot⟩⟩

/-- What is no longer to be sent was reported, and what was reported is not sent by a later attempt. The attempt that is
waited for is the last one, and its entries are those still to be sent. -/
structure Inv (req : List ι) (s : State ι) : Prop where
  accounted : ∀ e ∈ req, e ∉ s.requestEntries → ∃ a ∈ s.attempts, a.Reported e
  dropped : ∀ a ∈ s.attempts, ∀ e, a.Reported e → e ∉ s.requestEntries
  later : ∀ (i j : Nat) (a b : Attempt ι) (entries : List ι), i < j → s.attempts[i]? = some a →
    s.attempts[j]? = some b → b.entries? = some entries → ∀ e, a.Reported e → e ∉ entries
  sends : ∀ i entries, (i, entries) ∈ s.sends → ∃ a, s.attempts[i]? = some a ∧ a.entries? = some entries
  current : ∀ i, s.runner = .waiting i → i + 1 = s.attempts.length ∧ ∀ a entries, s.attempts[i]? = some a →
    a.entries? = some entries → entries = s.requestEntries
  failed : ∀ res err, s.runner = .failed res err → res = [] ∨ ∀ e ∈ s.requestEntries, e ∈ res
  finished : ∀ res err, s.runner = .finished res err → ∀ e ∈ req, e ∉ res → ∃ a ∈ s.attempts, a.Accepted e

theorem inv_start (req : List ι) : Inv req (State.start req) := by
  constructor <;> simp [State.start]

/-- What some attempt has, and the one that goes on keeps, some attempt has afterwards. -/
theorem exists_set {P : Attempt ι → Prop} {attempts : List (Attempt ι)} (hi : attempts[i]? = some a) (hab : P a → P b)
    (h : ∃ x ∈ attempts, P x) : ∃ x ∈ attempts.set i b, P x := by
  obtain ⟨x, hx, hPx⟩ := h
  obtain ⟨before, behind, hold, hnew⟩ := split_at hi b
  rw [hold, mem_append, mem_cons] at hx
  rw [hnew]
  rcases hx with hx | rfl | hx
  · exact ⟨x, mem_append_left _ hx, hPx⟩
  · exact ⟨b, mem_append_right _ mem_cons_self, hab hPx⟩
  · exact ⟨x, mem_append_right _ (mem_cons_of_mem _ hx), hPx⟩

theorem Inv.goes_on (h : Inv req s) (hi : s.attempts[i]? = some a) (b : Attempt ι) (hreported : ∀ e, ¬ a.Reported e)
    (hreported' : ∀ e, ¬ b.Reported e)
    (hentries : b.entries? = a.entries? ∨ a.entries? = none ∧ b.entries? = some s.requestEntries)
    (haccepted : ∀ e, a.Accepted e → b.Accepted e) {sends : List (Nat × List ι)}
    (hsends : ∀ j entries, (j, entries) ∈ sends → (j, entries) ∈ s.sends ∨ j = i ∧ b.entries? = some entries) :
    Inv req { s with attempts := s.attempts.set i b, sends := sends } where
  accounted e he hnot := exists_set hi (fun hr => absurd hr (hreported e)) (h.accounted e he hnot)
  dropped := forall_mem_set h.dropped fun e hr => absurd hr (hreported' e)
  later j k x y entries hjk hx hy hentriesy e hr := by
    rcases at_set hx with ⟨-, rfl⟩ | ⟨-, hxold⟩
    · exact absurd hr (hreported' e)
    · rcases at_set hy with ⟨rfl, rfl⟩ | ⟨-, hyold⟩
      · rcases hentries with heq | ⟨-, heq⟩
        · exact h.later j k x a entries hjk hxold hi (heq ▸ hentriesy) e hr
        · obtain rfl : s.requestEntries = entries := by simpa [heq] using hentriesy
          exact h.dropped x (mem_of_getElem? hxold) e hr
      · exact h.later j k x y entries hjk hxold hyold hentriesy e hr
  sends j entries hmem := by
    have hlt : i < s.attempts.length := (List.getElem?_eq_some_iff.1 hi).1
    rcases hsends j entries hmem with hmem | ⟨rfl, heq⟩
    · obtain ⟨x, hx, hxe⟩ := h.sends j entries hmem
      by_cases hj : j = i
      · subst hj
        obtain rfl : x = a := Option.some.inj (hx.symm.trans hi)
        refine ⟨b, getElem?_set_self hlt, ?_⟩
        rcases hentries with heq | ⟨hnone, -⟩
        · exact heq.trans hxe
        · rw [hnone] at hxe
          cases hxe
      · exact ⟨x, by rw [getElem?_set_ne (Ne.symm hj)]; exact hx, hxe⟩
    · exact ⟨b, getElem?_set_self hlt, heq⟩
  current j hj := by
    obtain ⟨hlast, hsame⟩ := h.current j hj
    refine ⟨by simpa using hlast, fun x entries hx hxe => ?_⟩
    rcases at_set hx with ⟨rfl, rfl⟩ | ⟨-, hx⟩
    · rcases hentries with heq | ⟨-, heq⟩
      · exact hsame a entries hi (heq ▸ hxe)
      · simpa [heq, eq_comm] using hxe
    · exact hsame x entries hx hxe
  failed := h.failed
  finished res err hres e he hnot := exists_set hi (haccepted e) (h.finished res err hres e he hnot)

theorem Inv.runs_on (h : Inv req s) {runner : Runner ι} {made : Nat} (hwaiting : ∀ i, runner ≠ .waiting i)
    (hfailed : ∀ res err, runner = .failed res err → res = [] ∨ ∀ e ∈ s.requestEntries, e ∈ res)
    (hfinished : ∀ res err, runner = .finished res err → ∀ e ∈ s.requestEntries, e ∈ res) :
    Inv req { s with runner, made } where
  accounted := h.accounted
  dropped := h.dropped
  later := h.later
  sends := h.sends
  current i hi := absurd hi (hwaiting i)
  failed := hfailed
  finished res err hres e he hnot := by
    obtain ⟨a, ha, hr⟩ := h.accounted e he fun hmem => hnot (hfinished res err hres e hmem)
    exact ⟨a, ha, hr.accepted⟩

theorem Inv.begin (h : Inv req s) :
    Inv req { s with attempts := s.attempts ++ [.started], runner := .waiting s.attempts.length } where
  accounted e he hnot := by
    obtain ⟨a, ha, hr⟩ := h.accounted e he hnot
    exact ⟨a, mem_append_left _ ha, hr⟩
  dropped := by
    refine forall_mem_concat h.dropped fun e hr => ?_
    obtain ⟨_, _, heq, -⟩ := hr
    cases heq
  later i j a b entries hij ha hb hentries e hr := by
    rcases at_append hb with hb | rfl
    · rcases at_append ha with ha | rfl
      · exact h.later i j a b entries hij ha hb hentries e hr
      · obtain ⟨_, _, heq, -⟩ := hr
        cases heq
    · cases hentries
  sends i entries hmem := by
    obtain ⟨a, ha, hentries⟩ := h.sends i entries hmem
    exact ⟨a, by rw [getElem?_append_left (List.getElem?_eq_some_iff.1 ha).1]; exact ha, hentries⟩
  current i hi := by
    obtain rfl : s.attempts.length = i := by simpa using hi
    refine ⟨by simp, fun a entries ha hentries => ?_⟩
    obtain rfl : Attempt.started = a := by simpa using ha
    cases hentries
  failed res err hres := by cases hres
  finished res err hres := by cases hres

end

/-- Who is not among the returned entries is not to be sent, or is not in a last response that counts. -/
theorem subset_returned {requestEntries res : List ι} {err : Err} (h : res = [] ∨ ∀ e ∈ requestEntries, e ∈ res) :
    ∀ e ∈ requestEntries, e ∈ returned requestEntries res (some err) := by
  intro e he
  unfold returned
  split
  · exact he
  · next hcounts =>
    have hne : res ≠ [] := by
      rintro rfl
      simp at hcounts
    exact h.resolve_left hne e he

section
variable [DecidableEq ι] {policyDef : Option PolicyDefinition} {req : List ι} {s s' : State ι}

theorem mem_accumulator {res requestEntries : List ι} {e : ι} :
    e ∈ accumulator res requestEntries ↔ e ∈ requestEntries ∧ (res = [] ∨ e ∈ res) := by
  unfold accumulator
  split
  · next h => simp [length_eq_zero_iff.1 h]
  · next h =>
    have hne : res ≠ [] := fun hnil => h (by simp [hnil])
    simp [hne]

/-- The runner gets an answer in time: the failed entries are to be sent from now on. -/
theorem Inv.receive (h : Inv req s) {i : Nat} {entries : List ι} {res : Response ι} (hrunner : s.runner = .waiting i)
    (hi : s.attempts[i]? = some (.answered entries res)) :
    Inv req { s with
      requestEntries := accumulator res.failedEntries s.requestEntries
      attempts := s.attempts.set i (.received entries res)
      runner := afterAnswer (accumulator res.failedEntries s.requestEntries) res } := by
  obtain ⟨hlast, hcurrent⟩ := h.current i hrunner
  obtain rfl : entries = s.requestEntries := hcurrent _ entries hi rfl
  have hmem : .received s.requestEntries res ∈ s.attempts.set i (.received s.requestEntries res) :=
    mem_set (by omega) _
  have hold : ∀ e, ¬ (Attempt.answered s.requestEntries res).Reported e := by
    rintro e ⟨_, _, heq, -⟩
    cases heq
  -- what is dropped now, the answer reports
  have hdropped : ∀ e ∈ req, e ∉ accumulator res.failedEntries s.requestEntries →
      ∃ a ∈ s.attempts.set i (.received s.requestEntries res), a.Reported e := by
    intro e he hnot
    by_cases hcurrent : e ∈ s.requestEntries
    · rw [mem_accumulator, not_and, not_or] at hnot
      obtain ⟨hsome, hnot⟩ := hnot hcurrent
      exact ⟨_, hmem, _, _, rfl, hcurrent, hsome, hnot⟩
    · exact exists_set hi (fun hr => absurd hr (hold e)) (h.accounted e he hcurrent)
  refine ⟨hdropped, fun a ha e hr => ?_, fun j k a b entries hjk ha hb hentries e hr => ?_, fun j entries hsent => ?_,
    fun j hj => ?_, fun failed err hfailed => ?_, fun failed err hfinished e he hnot => ?_⟩
  · rw [mem_accumulator]
    rcases mem_or_eq_of_mem_set ha with ha | rfl
    · exact fun hmem => h.dropped a ha e hr hmem.1
    · obtain ⟨_, _, heq, -, hsome, hnot⟩ := hr
      cases heq
      exact fun hmem => hmem.2.elim hsome hnot
  · rcases at_set ha with ⟨rfl, -⟩ | ⟨-, haold⟩
    · -- no attempt comes after the one that was waited for
      have hlt := (List.getElem?_eq_some_iff.1 hb).1
      rw [length_set] at hlt
      omega
    · rcases at_set hb with ⟨rfl, rfl⟩ | ⟨-, hbold⟩
      · exact h.later j k a _ entries hjk haold hi hentries e hr
      · exact h.later j k a b entries hjk haold hbold hentries e hr
  · obtain ⟨a, ha, hentries⟩ := h.sends j entries hsent
    by_cases hj : j = i
    · subst hj
      obtain rfl : a = .answered s.requestEntries res := Option.some.inj (ha.symm.trans hi)
      exact ⟨_, getElem?_set_self (by omega), hentries⟩
    · exact ⟨a, by rw [getElem?_set_ne (Ne.symm hj)]; exact ha, hentries⟩
  · unfold afterAnswer at hj
    cases herr : res.err <;> simp [herr] at hj
  · unfold afterAnswer at hfailed
    cases herr : res.err with
    | none => simp [herr] at hfailed
    | some err' =>
      obtain ⟨rfl, -⟩ : res.failedEntries = failed ∧ err' = err := by simpa [herr] using hfailed
      by_cases hnil : res.failedEntries = []
      · exact .inl hnil
      · exact .inr fun e he => (mem_accumulator.1 he).2.resolve_left hnil
  · unfold afterAnswer at hfinished
    cases herr : res.err with
    | some err' => simp [herr] at hfinished
    | none =>
      obtain ⟨rfl, -⟩ : res.failedEntries = failed ∧ none = err := by simpa [herr, returned] using hfinished
      by_cases hcurrent : e ∈ s.requestEntries
      · refine ⟨_, hmem, s.requestEntries, res, rfl, rfl, hcurrent, ?_⟩
        by_cases hnil : res.failedEntries = []
        · exact .inr ⟨hnil, herr⟩
        · exact .inl ⟨hnil, hnot⟩
      · obtain ⟨a, ha, hr⟩ := hdropped e he fun hmem => hcurrent (mem_accumulator.1 hmem).1
        exact ⟨a, ha, hr.accepted⟩

theorem inv_next {l : Label ι} (h : Inv req s) (hs : next policyDef s l = some s') : Inv req s' := by
  cases l with
  | begin =>
    obtain ⟨-, rfl⟩ := of_guard hs
    exact h.begin
  | refuse =>
    obtain ⟨-, rfl⟩ := of_guard hs
    refine h.runs_on (by simp) (by simp) fun res err hres => ?_
    obtain ⟨rfl, -⟩ : _ ∧ _ := by simpa using hres
    exact subset_returned (.inl rfl)
  | load i =>
    simp only [next] at hs
    split at hs
    · next hi =>
      cases hs
      exact h.goes_on hi (.loaded s.requestEntries) (by simp [Attempt.Reported]) (by simp [Attempt.Reported]) (.inr ⟨rfl, rfl⟩)
        (by simp [Attempt.Accepted, Attempt.entries?]) fun j entries hmem => .inl hmem
    · cases hs
  | send i =>
    simp only [next] at hs
    split at hs
    · next entries hi =>
      cases hs
      have hsends : ∀ j entries', (j, entries') ∈ s.sends ++ [(i, entries)] →
          (j, entries') ∈ s.sends ∨ j = i ∧ (Attempt.sent entries).entries? = some entries' := by
        intro j entries' hmem
        rcases mem_append.1 hmem with hmem | hmem
        · exact .inl hmem
        · obtain ⟨rfl, rfl⟩ : j = i ∧ entries' = entries := by simpa using hmem
          exact .inr ⟨rfl, rfl⟩
      exact h.goes_on hi (.sent entries) (by simp [Attempt.Reported]) (by simp [Attempt.Reported]) (.inl rfl)
        (by simp [Attempt.Accepted, Attempt.answer?]) hsends
    · cases hs
  | answer i res =>
    simp only [next] at hs
    split at hs
    · next entries hi =>
      cases hs
      exact h.goes_on hi (.answered entries res) (by simp [Attempt.Reported]) (by simp [Attempt.Reported]) (.inl rfl)
        (by simp [Attempt.Accepted, Attempt.answer?]) fun j entries hmem => .inl hmem
    · cases hs
  | receive =>
    simp only [next] at hs
    split at hs
    · next i hrunner =>
      split at hs
      · next entries res hi =>
        cases hs
        exact h.receive hrunner hi
      · cases hs
    · cases hs
  | late err =>
    simp only [next] at hs
    split at hs
    · obtain ⟨-, rfl⟩ := of_guard hs
      refine h.runs_on (by simp) (fun res err' hres => .inl ?_) (by simp)
      obtain ⟨rfl, -⟩ : _ ∧ _ := by simpa using hres
      rfl
    · cases hs
  | retry =>
    simp only [next] at hs
    split at hs
    · obtain ⟨-, rfl⟩ := of_guard hs
      exact h.runs_on (by simp) (by simp) (by simp)
    · cases hs
  | stop err =>
    simp only [next] at hs
    split at hs
    · next res last hrunner =>
      obtain ⟨-, rfl⟩ := of_guard hs
      refine h.runs_on (by simp) (by simp) fun failed err' hres => ?_
      obtain ⟨rfl, -⟩ : _ ∧ _ := by simpa using hres
      exact subset_returned (h.failed res last hrunner)
    · cases hs

/-- What is not returned as failed was accepted in some attempt. What was reported as accepted in an attempt that was not
late is not sent by a later attempt. -/
structure Accounted (req : List ι) (s : State ι) : Prop where
  accepted : ∀ failed err, s.runner = .finished failed err → ∀ e ∈ req, e ∉ failed → ∃ a ∈ s.attempts, a.Accepted e
  reported : ∀ i a e, s.attempts[i]? = some a → a.Reported e → ∀ j entries, i < j → (j, entries) ∈ s.sends → e ∉ entries

/-- For every policy and every sequence of answers, timeouts and refusals. -/
theorem accounted (h : Reachable (· = State.start req) (Steps (fun _ _ => True) (next policyDef)) s) :
    Accounted req s := by
  have hinv : Inv req s := by
    refine h.invariant (Inv req) ?_ ?_
    · rintro _ rfl
      exact inv_start req
    · rintro s s' hinv ⟨l, -, hs⟩
      exact inv_next hinv hs
  refine ⟨hinv.finished, fun i a e ha hr j entries hij hsent => ?_⟩
  obtain ⟨b, hb, hentries⟩ := hinv.sends j entries hsent
  exact hinv.later i j a b entries hij ha hb hentries e hr

theorem accounted_after_retry :
    ∃ s : State Nat, runFrom (next (some ⟨true, false, some 3⟩)) (State.start [0, 1, 2])
        [.begin, .load 0, .send 0, .answer 0 ⟨[1, 2], some .other⟩, .receive, .retry, .begin, .load 1, .send 1,
          .answer 1 ⟨[2], some .other⟩, .receive, .stop .other] = some s ∧
      s.sends = [(0, [0, 1, 2]), (1, [1, 2])] ∧ s.runner = .finished [2] (some .other) ∧ Accounted [0, 1, 2] s := by
  simp only [← and_assoc]
  refine Exists.imp (fun s hs => ⟨hs, ?_⟩) ⟨_, ⟨rfl, rfl⟩, rfl⟩
  exact accounted (reachable_of_runFrom (.start rfl) (fun _ _ _ => trivial) hs.1.1)

/-- The first attempt is late. The component reports that it accepted entry `0`, and then it is sent that entry again. -/
theorem sent_again_after_timeout :
    ∃ s s' : State Nat,
      runFrom (next (some ⟨true, false, some 3⟩)) (State.start [0, 1])
        [.begin, .load 0, .send 0, .late .timeout, .answer 0 ⟨[1], some .other⟩] = some s ∧
      s.attempts = [.answered [0, 1] ⟨[1], some .other⟩] ∧
      runFrom (next (some ⟨true, false, some 3⟩)) s [.retry, .begin, .load 1, .send 1] = some s' ∧
      s'.sends = s.sends ++ [(1, [0, 1])] :=
  ⟨_, _, rfl, rfl, rfl, rfl⟩

end

end Dapr.BulkPublish
