import Dapr.PubSub.BulkSubscriber
import Mathlib.Data.List.Nodup
import Mathlib.Data.List.Perm.Basic
/-!
# Callbacks of the default bulk subscriber

A message is at the channel, in it, collected or flushed, and at one of these places only. The callback
of a flushed message is called once if the handler's answer has one response for it. A message that is
not collected when the goroutine sees that the context is done stays where it is: its callback is never
called.
-/

namespace Dapr.BulkSubscriber

open Lib.Runs List

variable {ι ε : Type} [DecidableEq ι] {cfg : Config} {s s' : State ι ε}

/-! ## One batch -/

/-- If the answer is an error with responses, each entry of the batch has one of them. -/
def Complete (batch : List ι) (out : Outcome ι ε) : Prop :=
  out.err.isSome → ∀ responses ∈ out.responses, ∀ e ∈ batch, (responses.map Prod.fst).count e = 1

variable {batch : List ι} {out : Outcome ι ε} {e : ι}

theorem count_callbacks (hnodup : batch.Nodup) (hout : Complete batch out) (e : ι) :
    ((callbacks batch out).map Prod.fst).count e = batch.count e := by
  unfold callbacks
  cases herr : out.err with
  | none => simp [Function.comp_def]
  | some err =>
    cases hres : out.responses with
    | none => simp [Function.comp_def]
    | some responses =>
      have hfilter : (responses.filter (·.1 ∈ batch)).map Prod.fst = (responses.map Prod.fst).filter (· ∈ batch) := by
        rw [filter_map]
        rfl
      by_cases he : e ∈ batch
      · have hone := hout (by simp [herr]) responses hres e he
        simp only [hfilter, count_filter (p := (· ∈ batch)) (show decide (e ∈ batch) = true by simpa using he)]
        rw [hone, count_eq_one_of_mem hnodup he]
      · simp only [hfilter, count_eq_zero_of_not_mem he]
        exact count_eq_zero_of_not_mem fun hmem => he (by simpa using (mem_filter.1 hmem).2)

theorem reports_of_callback (h : (e, none) ∈ callbacks batch out) : e ∈ batch ∧ out.Reports e := by
  unfold callbacks at h
  cases herr : out.err with
  | none =>
    rw [herr] at h
    exact ⟨by simpa using h, .inl herr⟩
  | some err =>
    cases hres : out.responses with
    | none => simp [herr, hres] at h
    | some responses =>
      simp only [herr, hres, mem_filter, decide_eq_true_eq] at h
      exact ⟨h.2, .inr ⟨responses, hres, h.1⟩⟩

/-! ## What holds in every run -/

def State.flushed (s : State ι ε) : List ι := s.flushes.flatMap Prod.fst

def State.called (s : State ι ε) : List ι := s.calls.map Prod.fst

/-- The goroutine has seen that the context is done. -/
def Pc.over : Pc → Bool
  | .handling last => last
  | .returned => true
  | _ => false

/-- Each message that was handed over is in one place, and is called back once when it is flushed. -/
structure Inv (cfg : Config) (s : State ι ε) : Prop where
  nodup : s.handed.Nodup
  places : s.handed.Perm (s.senders ++ (s.channel ++ (s.messages ++ s.flushed)))
  once : ∀ e, s.called.count e = s.flushed.count e
  reported : ∀ e, (e, none) ∈ s.calls → ∃ f ∈ s.flushes, e ∈ f.1 ∧ f.2.Reports e
  closed : s.pc.over = true → s.senders = [] ∧ s.channel = []
  collecting : (s.pc = .draining ∨ ∃ last, s.pc = .handling last) → s.messages ≠ []
  idle : (s.pc = .returned ∨ cfg.immediate = true ∧ s.pc = .selecting) → s.messages = []

/-- The answers of the handler are complete. When the goroutine sees that the context is done, nothing is at the channel
or in it, and nothing is handed over afterwards. -/
def Allowed (s : State ι ε) : Label ι ε → Prop
  | .arrive _ => s.pc.over = false
  | .done => s.senders = [] ∧ s.channel = []
  | .answer out => Complete s.messages out
  | _ => True

instance (batch : List ι) (out : Outcome ι ε) : Decidable (Complete batch out) := by
  unfold Complete
  infer_instance

instance (s : State ι ε) : (l : Label ι ε) → Decidable (Allowed s l)
  | .arrive _ => inferInstanceAs (Decidable (s.pc.over = false))
  | .done => inferInstanceAs (Decidable (s.senders = [] ∧ s.channel = []))
  | .answer out => inferInstanceAs (Decidable (Complete s.messages out))
  | .send _ | .cancel | .receive | .drain | .drained | .tick => .isTrue trivial

theorem inv_start : Inv cfg (State.start : State ι ε) := by
  constructor <;> simp [State.start, State.flushed, State.called]

theorem Inv.messages_nodup (h : Inv cfg s) : s.messages.Nodup := by
  have hall := (h.places.nodup_iff).1 h.nodup
  exact (nodup_append.1 (nodup_append.1 (nodup_append.1 hall).2.1).2.1).1

/-- A message is handed over. -/
theorem Inv.arrive (h : Inv cfg s) (hnew : e ∉ s.handed) (hpc : s.pc.over = false) :
    Inv cfg { s with senders := s.senders ++ [e], handed := s.handed ++ [e] } where
  nodup := pairwise_concat h.nodup fun x hx heq => hnew (heq ▸ hx)
  places := by
    have hmove : (s.senders ++ [e] ++ (s.channel ++ (s.messages ++ s.flushed))).Perm
        (s.senders ++ (s.channel ++ (s.messages ++ s.flushed)) ++ [e]) := by
      rw [append_assoc, append_assoc]
      exact perm_append_comm.append_left _
    exact (h.places.append_right [e]).trans hmove.symm
  once := h.once
  reported := h.reported
  closed hover := by
    rw [hpc] at hover
    cases hover
  collecting := h.collecting
  idle := h.idle

theorem Inv.send (h : Inv cfg s) (he : e ∈ s.senders) :
    Inv cfg { s with senders := s.senders.erase e, channel := s.channel ++ [e] } where
  nodup := h.nodup
  places := by
    have hfront := (perm_cons_erase he).append_right (s.channel ++ (s.messages ++ s.flushed))
    have hback : (s.senders.erase e ++ s.channel ++ e :: (s.messages ++ s.flushed)).Perm
        (e :: (s.senders.erase e ++ s.channel ++ (s.messages ++ s.flushed))) := perm_middle
    refine h.places.trans (hfront.trans ?_)
    simpa [State.flushed] using hback.symm
  once := h.once
  reported := h.reported
  closed hover := by
    rw [(h.closed hover).1] at he
    cases he
  collecting := h.collecting
  idle := h.idle

theorem Inv.receive (h : Inv cfg s) {channel : List ι} (hchannel : s.channel = e :: channel) :
    Inv cfg { s with channel, messages := s.messages ++ [e], pc := .draining } where
  nodup := h.nodup
  places := by
    have hback : (channel ++ s.messages ++ e :: s.flushed).Perm (e :: (channel ++ s.messages ++ s.flushed)) :=
      perm_middle
    have hplaces := h.places
    rw [hchannel] at hplaces
    refine hplaces.trans (Perm.append_left _ ?_)
    simpa [State.flushed] using hback.symm
  once := h.once
  reported := h.reported
  closed hover := by cases hover
  collecting _ := by simp
  idle := by simp

theorem Inv.go (h : Inv cfg s) {pc : Pc} (hover : pc.over = true → s.senders = [] ∧ s.channel = [])
    (hcollecting : (pc = .draining ∨ ∃ last, pc = .handling last) → s.messages ≠ [])
    (hidle : (pc = .returned ∨ cfg.immediate = true ∧ pc = .selecting) → s.messages = []) : Inv cfg { s with pc } :=
  ⟨h.nodup, h.places, h.once, h.reported, hover, hcollecting, hidle⟩

theorem Inv.answer (h : Inv cfg s) {last : Bool} (hpc : s.pc = .handling last) (hout : Complete s.messages out) :
    Inv cfg { s with
      messages := []
      pc := if last then .returned else .selecting
      flushes := s.flushes ++ [(s.messages, out)]
      calls := s.calls ++ callbacks s.messages out } where
  nodup := h.nodup
  places := by
    refine h.places.trans (Perm.append_left _ (Perm.append_left _ ?_))
    simpa [State.flushed] using perm_append_comm
  once e := by
    have hbefore := h.once e
    simp only [State.called] at hbefore
    simp only [State.called, State.flushed, map_append, flatMap_append, count_append, hbefore,
      count_callbacks h.messages_nodup hout]
    simp
  reported e he := by
    rcases mem_append.1 he with he | he
    · obtain ⟨f, hf, hrep⟩ := h.reported e he
      exact ⟨f, mem_append_left _ hf, hrep⟩
    · exact ⟨(s.messages, out), mem_append_right _ (mem_singleton_self _), reports_of_callback he⟩
  closed hover := by
    refine h.closed ?_
    cases last with
    | true => rw [hpc]; rfl
    | false => cases hover
  collecting hpc := by cases last <;> simp at hpc
  idle _ := rfl

theorem inv_next {l : Label ι ε} (h : Inv cfg s) (hok : Allowed s l) (hs : next cfg s l = some s') : Inv cfg s' := by
  cases l with
  | arrive e =>
    simp only [next, Option.ite_none_left_eq_some, Option.some.injEq] at hs
    obtain ⟨hnew, rfl⟩ := hs
    exact h.arrive hnew hok
  | send e =>
    obtain ⟨⟨he, -⟩, rfl⟩ := of_guard hs
    exact h.send he
  | cancel =>
    cases hs
    exact ⟨h.nodup, h.places, h.once, h.reported, h.closed, h.collecting, h.idle⟩
  | receive =>
    simp only [next] at hs
    split at hs
    · next e channel hpc hchannel =>
      cases hs
      exact h.receive hchannel
    · cases hs
  | drain =>
    simp only [next] at hs
    split at hs
    · next e channel hpc hchannel =>
      obtain ⟨-, rfl⟩ := of_guard hs
      have hgo := h.receive hchannel
      rwa [← hpc] at hgo
    · cases hs
  | drained =>
    obtain ⟨⟨hpc, -⟩, rfl⟩ := of_guard hs
    have hne := h.collecting (.inl hpc)
    by_cases hfull : cfg.immediate = true ∨ cfg.max ≤ s.messages.length
    · rw [if_pos hfull]
      exact h.go (by simp [Pc.over]) (fun _ => hne) (by simp)
    · rw [if_neg hfull]
      refine h.go (by simp [Pc.over]) (fun _ => hne) ?_
      rintro (hpc | ⟨himm, -⟩)
      · cases hpc
      · exact absurd (.inl himm) hfull
  | tick =>
    obtain ⟨⟨hpc, himm⟩, rfl⟩ := of_guard hs
    by_cases hsome : 0 < s.messages.length
    · rw [if_pos hsome]
      exact h.go (by simp [Pc.over]) (fun _ => ne_nil_of_length_pos hsome) (by simp)
    · rw [if_neg hsome]
      exact h.go (by simp [Pc.over]) (by simp) (by simp [himm])
  | done =>
    obtain ⟨⟨hpc, -⟩, rfl⟩ := of_guard hs
    by_cases hlast : cfg.immediate = false ∧ 0 < s.messages.length
    · rw [if_pos hlast]
      exact h.go (fun _ => hok) (fun _ => ne_nil_of_length_pos hlast.2) (by simp)
    · rw [if_neg hlast]
      refine h.go (fun _ => hok) (by simp) fun _ => ?_
      cases himm : cfg.immediate with
      | true => exact h.idle (.inr ⟨himm, hpc⟩)
      | false => simpa [himm] using hlast
  | answer out =>
    simp only [next] at hs
    split at hs
    · next last hpc =>
      cases hs
      exact h.answer hpc hok
    · cases hs

/-! ## Every message is called back -/

/-- The steps of the subscriber itself. -/
def Own : Label ι ε → Bool
  | .arrive _ => false
  | .cancel => false
  | _ => true

/-- What is left to do. Collecting a message, flushing it and answering for it take it further. -/
def State.left (s : State ι ε) : Nat :=
  6 * s.senders.length + 5 * s.channel.length + 2 * s.messages.length +
    match s.pc with
    | .selecting => 1
    | .draining => 2
    | .handling _ => 0
    | .returned => 0

theorem Config.max_pos (cfg : Config) : 0 < cfg.max := by
  unfold Config.max getIntValOrDefault defaultMaxMessagesCount
  split <;> omega

/-- No message waits to be flushed. -/
def State.Empty (s : State ι ε) : Prop := s.senders = [] ∧ s.channel = [] ∧ s.messages = []

/-- As long as something is not flushed, the subscriber has a step that brings it further. -/
theorem exists_own_step (h : Inv cfg s) (hpc : s.pc ≠ .returned) (hleft : ¬ s.Empty) :
    ∃ l s', Own l = true ∧ Allowed s l ∧ next cfg s l = some s' ∧ s'.handed = s.handed ∧
      (s'.Empty ∨ s'.pc ≠ .returned ∧ s'.left < s.left) := by
  cases hs : s.pc with
  | returned => exact absurd hs hpc
  | selecting =>
    cases hm : s.messages with
    | cons e messages =>
      have himm : cfg.immediate = false := by
        by_contra himm
        have hnil := h.idle (.inr ⟨by simpa using himm, hs⟩)
        rw [hm] at hnil
        cases hnil
      exact ⟨.tick, { s with pc := .handling false }, rfl, trivial, by simp [next, hs, himm, hm], rfl, .inr ⟨by simp, by
        simp [State.left, hs]⟩⟩
    | nil =>
      cases hc : s.channel with
      | cons e channel =>
        refine ⟨.receive, { s with channel, messages := s.messages ++ [e], pc := .draining }, rfl, trivial,
          by simp only [next, hs, hc], rfl, .inr ⟨by simp, ?_⟩⟩
        simp only [State.left, hc, length_cons, length_append, length_nil]
        omega
      | nil =>
        cases hq : s.senders with
        | nil => exact absurd ⟨hq, hc, hm⟩ hleft
        | cons e senders =>
          refine ⟨.send e, { s with senders := senders, channel := [e] }, rfl, trivial, by simp [next, hq, hc, cfg.max_pos],
            rfl, .inr ⟨hpc, ?_⟩⟩
          simp only [State.left, hc, hq, length_cons]
          omega
  | draining =>
    by_cases hfull : cfg.max ≤ s.messages.length ∨ s.channel = []
    · refine ⟨.drained, _, rfl, trivial, if_pos ⟨hs, hfull⟩, rfl, .inr ⟨by split <;> simp, ?_⟩⟩
      by_cases hflush : cfg.immediate = true ∨ cfg.max ≤ s.messages.length <;> simp [State.left, hs, hflush]
    · rw [not_or] at hfull
      cases hc : s.channel with
      | nil => exact absurd hc hfull.2
      | cons e channel =>
        refine ⟨.drain, { s with channel, messages := s.messages ++ [e] }, rfl, trivial, ?_, rfl, .inr ⟨hpc, ?_⟩⟩
        · simp only [next, hs, hc]
          exact if_pos (by omega)
        · simp only [State.left, hc, length_cons, length_append, length_nil]
          omega
  | handling last =>
    have hne := h.collecting (.inr ⟨last, hs⟩)
    have hnil : Complete s.messages (⟨none, none⟩ : Outcome ι ε) := by simp [Complete]
    refine ⟨.answer ⟨none, none⟩, { s with
      messages := []
      pc := if last then .returned else .selecting
      flushes := s.flushes ++ [(s.messages, ⟨none, none⟩)]
      calls := s.calls ++ callbacks s.messages ⟨none, none⟩ }, rfl, hnil, by simp only [next, hs], rfl, ?_⟩
    cases last with
    | true =>
      obtain ⟨hq, hc⟩ := h.closed (by rw [hs]; rfl)
      exact .inl ⟨hq, hc, rfl⟩
    | false =>
      have hpos := length_pos_iff.2 hne
      refine .inr ⟨by simp, ?_⟩
      simp only [State.left, length_nil, Bool.false_eq_true, if_false]
      omega

theorem Inv.count_of_empty (h : Inv cfg s) (hempty : s.Empty) (he : e ∈ s.handed) : s.called.count e = 1 := by
  obtain ⟨hq, hc, hm⟩ := hempty
  have hplaces := h.places
  simp only [hq, hc, hm, nil_append] at hplaces
  rw [h.once, ← hplaces.count_eq, count_eq_one_of_mem h.nodup he]

/-- Unless the goroutine has returned, steps of the subscriber lead to where everything is called back. -/
theorem Inv.exists_run (h : Inv cfg s) (hpc : s.pc ≠ .returned) :
    ∃ ls s', runFrom (guarded (fun _ l => Own l = true) (next cfg)) s ls = some s' ∧
      ∀ e ∈ s.handed, s'.called.count e = 1 := by
  by_cases hempty : s.Empty
  · exact ⟨[], s, rfl, fun e he => h.count_of_empty hempty he⟩
  -- the handed messages stay, and what is left shrinks
  have hrun : ∃ ls s', runFrom (guarded (fun _ l => Own l = true) (next cfg)) s ls = some s' ∧
      Inv cfg s' ∧ s'.handed = s.handed ∧ s'.Empty := by
    refine exists_runFrom (P := fun t => Inv cfg t ∧ t.handed = s.handed ∧ t.pc ≠ .returned ∧ ¬ t.Empty) State.left ?_
      ⟨h, rfl, hpc, hempty⟩
    rintro t ⟨hinv, hhanded, hpc, hne⟩
    obtain ⟨l, t', hown, hok, ht', hsame, hcase⟩ := exists_own_step hinv hpc hne
    have hinv' := inv_next hinv hok ht'
    refine ⟨l, t', guarded_eq_some.2 ⟨hown, ht'⟩, ?_⟩
    by_cases hempty : t'.Empty
    · exact .inl ⟨hinv', hsame.trans hhanded, hempty⟩
    · obtain ⟨hpc', hlt⟩ := hcase.resolve_left hempty
      exact .inr ⟨⟨hinv', hsame.trans hhanded, hpc', hempty⟩, hlt⟩
  obtain ⟨ls, s', hls, hinv, hhanded, hempty⟩ := hrun
  exact ⟨ls, s', hls, fun e he => hinv.count_of_empty hempty (hhanded ▸ he)⟩

/-- Callbacks are called for messages that were handed over, at most once, and without an error only if the handler
reported success. When the goroutine has returned, all were called; before that, steps of the subscriber lead there. -/
structure CalledOnce (cfg : Config) (s : State ι ε) : Prop where
  known : ∀ e ∈ s.called, e ∈ s.handed
  once : ∀ e, s.called.count e ≤ 1
  reported : ∀ e, (e, none) ∈ s.calls → ∃ f ∈ s.flushes, e ∈ f.1 ∧ f.2.Reports e
  returned : s.pc = .returned → ∀ e ∈ s.handed, s.called.count e = 1
  still : s.pc ≠ .returned → ∃ ls s', runFrom (guarded (fun _ l => Own l = true) (next cfg)) s ls = some s' ∧
    ∀ e ∈ s.handed, s'.called.count e = 1

theorem calledOnce_of_inv (h : Inv cfg s) : CalledOnce cfg s where
  known e he := by
    have hcount := count_pos_iff.2 he
    rw [h.once] at hcount
    rw [h.places.mem_iff]
    simp [count_pos_iff.1 hcount]
  once e := by
    have hsub : s.flushed.Sublist (s.senders ++ (s.channel ++ (s.messages ++ s.flushed))) :=
      (sublist_append_right _ _).trans ((sublist_append_right _ _).trans (sublist_append_right _ _))
    rw [h.once]
    exact nodup_iff_count_le_one.1 ((h.places.nodup_iff.1 h.nodup).sublist hsub) e
  reported := h.reported
  returned hpc e he := by
    obtain ⟨hq, hc⟩ := h.closed (by rw [hpc]; rfl)
    exact h.count_of_empty ⟨hq, hc, h.idle (.inl hpc)⟩ he
  still hpc := h.exists_run hpc

/-- Every message is called back exactly once in every run in which answers are complete and nothing is at the channel
or comes to it when the goroutine sees that the context is done. -/
theorem calledOnce (h : Reachable (· = State.start) (Steps Allowed (next cfg)) s) : CalledOnce cfg s := by
  refine calledOnce_of_inv (h.invariant (Inv cfg) ?_ ?_)
  · rintro _ rfl
    exact inv_start
  · rintro s s' hinv ⟨l, hok, hs⟩
    exact inv_next hinv hok hs

theorem two_messages_are_called_once :
    ∃ s : State Nat String, runFrom (guarded Allowed (next ⟨2, false⟩)) State.start
        [.arrive 0, .arrive 1, .send 0, .send 1, .receive, .drain, .drained,
          .answer ⟨some [(1, some "retry"), (0, none)], some "retry"⟩, .cancel, .done] = some s ∧
      s.calls = [(1, some "retry"), (0, none)] ∧ CalledOnce ⟨2, false⟩ s := by
  simp only [← and_assoc]
  refine Exists.imp (fun s hs => ⟨hs, ?_⟩) ⟨_, rfl, rfl⟩
  exact calledOnce (reachable_of_guarded (.start rfl) hs.1)

/-- A message that is in the channel when the context is done is never called back; neither is one that the handler's
responses leave out. One that they have twice is called back twice. -/
theorem callbacks_are_missed_and_repeated :
    (∃ s : State Nat String, runFrom (next ⟨2, false⟩) State.start [.arrive 0, .send 0, .cancel, .done] = some s ∧
      s.pc = .returned ∧ s.handed = [0] ∧ s.calls = [] ∧ ¬ CalledOnce ⟨2, false⟩ s) ∧
    (∃ s : State Nat String, runFrom (next ⟨2, false⟩) State.start
        [.arrive 0, .arrive 1, .send 0, .send 1, .receive, .drain, .drained, .answer ⟨some [(0, none)], some "retry"⟩,
          .cancel, .done] = some s ∧
      s.pc = .returned ∧ s.handed = [0, 1] ∧ s.calls = [(0, none)] ∧ ¬ CalledOnce ⟨2, false⟩ s) ∧
    (∃ s : State Nat String, runFrom (next ⟨1, false⟩) State.start
        [.arrive 0, .send 0, .receive, .drained, .answer ⟨some [(0, none), (0, some "retry")], some "retry"⟩] = some s ∧
      s.calls = [(0, none), (0, some "retry")] ∧ ¬ CalledOnce ⟨1, false⟩ s) := by
  refine ⟨⟨_, rfl, rfl, rfl, rfl, fun h => ?_⟩, ⟨_, rfl, rfl, rfl, rfl, fun h => ?_⟩, ⟨_, rfl, rfl, fun h => ?_⟩⟩
  · exact absurd (h.returned rfl 0 (by decide)) (by decide)
  · exact absurd (h.returned rfl 1 (by decide)) (by decide)
  · exact absurd (h.once 0) (by decide)

end Dapr.BulkSubscriber
