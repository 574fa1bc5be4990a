import Dapr.Lib.Threads
import Dapr.Subscriber.Retries
/-!
# Who may start a subscription

No subscription is to run twice, and nothing that a retry starts is to outlive a delete, a stop or a reload
(`Settled`). A subscription is owned by what runs and is recorded, and by every retry that may still start it. The
invariant is that it has one owner at most; steps that cancel and stop only take owners away (`Shrinks`).
-/

namespace Dapr.Subscriber.Retries

open List
open Lib.Threads (countAt weight)

variable {ρ : Type} {s s' : State ρ} {n : NamedSubscription ρ}

/-- Each subscription runs once, and of what was ended nothing is left that an earlier retry has started. -/
structure Settled (s : State ρ) : Prop where
  once : (s.live.map (·.sub.id)).Nodup
  gone : ∀ e ∈ s.returned, ∀ u ∈ s.live, ∀ i, u.startedBy = some i → i < e.1 → ¬e.2.covers u.sub

/-! ## The condition -/

/-- It is in an attempt, or on the way to one. -/
def Pc.awake : Pc → Bool
  | .entering | .checking | .starting | .recording | .arming => true
  | .failed | .parked | .done => false

/-- It may still start its subscription. -/
def Retry.pending (cancelled : List Nat) (r : Retry ρ) : Bool :=
  r.pc.awake || (r.pc ≠ .done && !r.isCancelled cancelled)

/-- What stops subscriptions comes while no retry of them is awake. -/
def Undisturbed (s : State ρ) : Label ρ → Prop
  | .stopApp | .stopForever | .shutdown => ∀ r ∈ s.retries, r.pc.awake = false
  | .stopPubSub pubsubName => ∀ r ∈ s.retries, r.pubsubName = pubsubName → r.pc.awake = false
  | .reloadPubSub pubsubName _ =>
    (∀ r ∈ s.retries, r.pubsubName = pubsubName → r.pc.awake = false) ∧ (s.closed = true → s.appSubs.length = 0)
  | .close name pubsubName =>
    (∀ r ∈ s.retries, r.sub.name = some name → r.pending s.cancelled = false) ∧
      ∀ u ∈ s.appSubs, u.sub.name = some name →
        u.sub.sub.pubsubName = pubsubName ∧ s.closed = false ∧ ∃ d ∈ s.store.declaratives, d.name = name
  | .add d _ =>
    (∀ r ∈ s.retries, r.sub.name = some d.name → r.pending s.cancelled = false) ∧
      (∀ u ∈ s.appSubs, u.sub.name = some d.name → u.sub.sub.pubsubName = d.sub.pubsubName) ∧
        ∀ d' ∈ s.store.declaratives, d'.name = d.name → d'.sub.pubsubName = d.sub.pubsubName
  | _ => True

/-! ## The invariant -/

/-- It runs and is recorded, or a retry may start it. -/
def State.Owns (s : State ρ) (n : NamedSubscription ρ) : Prop :=
  (∃ u ∈ s.appSubs, u.sub = n) ∨ ∃ r ∈ s.retries, r.pending s.cancelled = true ∧ r.sub = n

/-- A retry of the subscription that may still start it. -/
def Retry.pendingFor (cancelled : List Nat) (x : SubId) (r : Retry ρ) : Bool := r.pending cancelled && r.sub.id = x

/-- How often the subscription runs or may be started. -/
def State.owners (s : State ρ) (x : SubId) : Nat :=
  s.appSubs.countP (·.sub.id = x) + countAt (Retry.pendingFor s.cancelled x) s.retries

/-- Nothing is left, of what the operation has ended, that an earlier retry has started or may start. -/
structure Ended (s : State ρ) (e : Nat × Target) : Prop where
  le : e.1 ≤ s.retries.length
  retries : ∀ i r, i < e.1 → s.retries[i]? = some r → e.2.covers r.sub → r.pending s.cancelled = false
  subs : ∀ u ∈ s.appSubs, ∀ i, u.startedBy = some i → i < e.1 → ¬e.2.covers u.sub

/-- Its context is that of its pubsub, or cancelled. -/
def Entered (s : State ρ) (r : Retry ρ) : Prop :=
  ∃ ctx, r.ctx = some ctx ∧ (ctx ∈ s.cancelled ∨ s.retryCtx.lookup r.pubsubName = some ctx)

/-- A subscription has one owner, and what was stopped has none. -/
structure Inv (s : State ρ) : Prop where
  alone : ∀ x, s.owners x ≤ 1
  /-- What has the name of a stored subscription is on its pubsub. -/
  linked : ∀ n, s.Owns n → ∀ d ∈ s.store.declaratives, n.name = some d.name → d.sub.pubsubName = n.sub.pubsubName
  ended : ∀ e ∈ s.returned, Ended s e
  entered : ∀ r ∈ s.retries, r.pc ≠ .entering → Entered s r
  inactive : s.appSubActive = false → s.appSubs = []
  idle : s.appSubActive = false ∨ s.closed = true → ∀ r ∈ s.retries, r.pending s.cancelled = false

theorem Inv.init : Inv (State.init : State ρ) where
  alone x := by simp [State.owners, State.init, countAt]
  linked n hn := by simp [State.Owns, State.init] at hn
  ended e he := by simp [State.init] at he
  entered r hr := by simp [State.init] at hr
  inactive _ := rfl
  idle _ r hr := by simp [State.init] at hr

theorem owners_eq_zero {x : SubId} : s.owners x = 0 ↔ ∀ n, s.Owns n → n.id ≠ x := by
  rw [State.owners, Nat.add_eq_zero_iff, countP_eq_zero, Lib.Threads.countAt_eq_zero]
  constructor
  · rintro ⟨hsubs, hretries⟩ n (⟨u, hu, rfl⟩ | ⟨r, hr, hp, rfl⟩)
    · simpa using hsubs u hu
    · simpa [Retry.pendingFor, hp] using hretries r hr
  · intro h
    refine ⟨fun u hu => ?_, fun r hr => ?_⟩
    · simpa using h u.sub (.inl ⟨u, hu, rfl⟩)
    · by_cases hp : r.pending s.cancelled = true
      · simpa [Retry.pendingFor, hp] using h r.sub (.inr ⟨r, hr, hp, rfl⟩)
      · simp [Retry.pendingFor, hp]

/-- What runs is owned. -/
theorem settled_of_inv (h : Inv s) : Settled s where
  once := by
    rw [nodup_iff_count_le_one]
    intro x
    have hfst : (s.retries.zipIdx.filter (·.1.pc = .recording)).countP (·.1.sub.id = x) =
        s.retries.countP fun r => r.sub.id = x && r.pc = .recording := by
      rw [countP_filter]
      conv_rhs => rw [← zipIdx_map_fst 0 s.retries, countP_map]
      rfl
    have hpending : (s.retries.countP fun r => r.sub.id = x && r.pc = .recording) ≤
        countAt (Retry.pendingFor s.cancelled x) s.retries := by
      refine countP_mono_left fun r _ hr => ?_
      simp only [Bool.and_eq_true, decide_eq_true_eq] at hr
      simp [Retry.pendingFor, Retry.pending, Pc.awake, hr]
    have halone : s.owners x ≤ 1 := h.alone x
    rw [List.count, countP_map, State.live, countP_append, countP_map]
    unfold State.owners at halone
    have hsubs : s.appSubs.countP ((· == x) ∘ (·.sub.id)) = s.appSubs.countP (·.sub.id = x) := rfl
    have hmap : (s.retries.zipIdx.filter (·.1.pc = .recording)).countP
        (((· == x) ∘ (·.sub.id)) ∘ fun e => (⟨e.1.sub, some e.2⟩ : Running ρ)) =
        (s.retries.zipIdx.filter (·.1.pc = .recording)).countP (·.1.sub.id = x) := rfl
    omega
  gone := by
    intro e he u hu i hi hlt
    rw [State.live, mem_append] at hu
    rcases hu with hu | hu
    · exact (h.ended e he).subs u hu i hi hlt
    · obtain ⟨⟨r, j⟩, hr, rfl⟩ := mem_map.1 hu
      obtain ⟨hr, hpc⟩ := mem_filter.1 hr
      obtain rfl : j = i := Option.some.inj hi
      intro hcovers
      have hpending := (h.ended e he).retries j r hlt (mk_mem_zipIdx_iff_getElem?.1 hr) hcovers
      simp only [decide_eq_true_eq] at hpc
      simp [Retry.pending, Pc.awake, hpc] at hpending

/-! ## Steps that only let go -/

/-- Nothing is added, and every retry is as it was or closer to its end. -/
structure Shrinks (s s' : State ρ) : Prop where
  declaratives : s'.store.declaratives ⊆ s.store.declaratives
  subs : s'.appSubs.Sublist s.appSubs
  retries : Forall₂
    (fun r r' => r'.sub = r.sub ∧ (r'.pending s'.cancelled = true → r.pending s.cancelled = true)) s.retries s'.retries
  returned : s'.returned = s.returned

theorem Shrinks.owns (hs : Shrinks s s') (hn : s'.Owns n) : s.Owns n := by
  rcases hn with ⟨u, hu, rfl⟩ | ⟨r', hr', hp, rfl⟩
  · exact .inl ⟨u, hs.subs.subset hu, rfl⟩
  · obtain ⟨i, hi, rfl⟩ := getElem_of_mem hr'
    have hlen := hs.retries.length_eq
    obtain ⟨hsub, hpending⟩ := Forall₂.get hs.retries (by omega) hi
    exact .inr ⟨_, get_mem s.retries ⟨i, by omega⟩, hpending hp, hsub.symm⟩

theorem Shrinks.owners_le (hs : Shrinks s s') (x : SubId) : s'.owners x ≤ s.owners x := by
  refine Nat.add_le_add hs.subs.countP_le (Lib.Threads.countAt_le_of_forall₂ (hs.retries.imp ?_))
  rintro r r' ⟨hsub, hpending⟩ h
  simp only [Retry.pendingFor, Bool.and_eq_true] at h ⊢
  exact ⟨hpending h.1, hsub ▸ h.2⟩

variable {i retries : Nat} {r r' : Retry ρ} {closed : Bool} {cancelled : List Nat} {m : Move} {pc : Pc}
  {target : Target}

theorem Shrinks.pending (hs : Shrinks s s') (hr' : s'.retries[i]? = some r') :
    ∃ r, s.retries[i]? = some r ∧ r'.sub = r.sub ∧ (r'.pending s'.cancelled = true → r.pending s.cancelled = true) := by
  obtain ⟨hi, rfl⟩ := List.getElem?_eq_some_iff.1 hr'
  have hlen := hs.retries.length_eq
  exact ⟨_, List.getElem?_eq_getElem (by omega), Forall₂.get hs.retries (by omega) hi⟩

theorem Shrinks.idle (hs : Shrinks s s') (h : ∀ r ∈ s.retries, r.pending s.cancelled = false) :
    ∀ r ∈ s'.retries, r.pending s'.cancelled = false := by
  intro r' hr'
  obtain ⟨i, hi⟩ := mem_iff_getElem?.1 hr'
  obtain ⟨r, hr, -, hpending⟩ := hs.pending hi
  have hnot := h r (mem_of_getElem? hr)
  by_contra hp
  rw [hpending (by simpa using hp)] at hnot
  cases hnot

theorem Ended.shrink {e : Nat × Target} (h : Ended s e) (hs : Shrinks s s') : Ended s' e where
  le := hs.retries.length_eq ▸ h.le
  retries i r' hlt hr' hcovers := by
    obtain ⟨r, hr, hsub, hpending⟩ := hs.pending hr'
    have hnot := h.retries i r hlt hr (hsub ▸ hcovers)
    by_contra hp
    rw [hpending (by simpa using hp)] at hnot
    cases hnot
  subs u hu := h.subs u (hs.subs.subset hu)

/-- What remains to be said of a step that only lets go. -/
theorem Inv.shrink (h : Inv s) (hs : Shrinks s s') (hentered : ∀ r ∈ s'.retries, r.pc ≠ .entering → Entered s' r)
    (hinactive : s'.appSubActive = false → s'.appSubs = [])
    (hidle : s'.appSubActive = false ∨ s'.closed = true → ∀ r ∈ s'.retries, r.pending s'.cancelled = false) :
    Inv s' where
  alone x := le_trans (hs.owners_le x) (h.alone x)
  linked n hn d hd := h.linked n (hs.owns hn) d (hs.declaratives hd)
  ended e he := (h.ended e (hs.returned ▸ he)).shrink hs
  entered := hentered
  inactive := hinactive
  idle := hidle

theorem Inv.shrink_of_flags (h : Inv s) (hs : Shrinks s s')
    (hentered : ∀ r ∈ s'.retries, r.pc ≠ .entering → Entered s' r) (hactive : s'.appSubActive = s.appSubActive)
    (hclosed : s'.closed = s.closed) : Inv s' := by
  refine h.shrink hs hentered (fun hoff => ?_) fun hoff => ?_
  · have hnil := h.inactive (hactive ▸ hoff)
    exact sublist_nil.1 (hnil ▸ hs.subs)
  · rw [hactive, hclosed] at hoff
    exact hs.idle (h.idle hoff)

/-! ### A retry moves -/

theorem Shrinks.of_set (hr : s.retries[i]? = some r) (hsub : r'.sub = r.sub)
    (hpending : r'.pending s.cancelled = true → r.pending s.cancelled = true) : Shrinks s (s.setRetry i r') where
  declaratives := List.Subset.refl _
  subs := Sublist.refl _
  retries := by
    rw [List.forall₂_iff_get]
    refine ⟨(length_set ..).symm, fun j hj hj' => ?_⟩
    have hget : (s.retries.set i r')[j]? = some ((s.setRetry i r').retries.get ⟨j, hj'⟩) :=
      List.getElem?_eq_getElem hj'
    rcases Lib.Threads.at_set hget with ⟨rfl, hnew⟩ | ⟨-, hold⟩
    · have hget' : s.retries.get ⟨j, hj⟩ = r := Option.some.inj ((List.getElem?_eq_getElem hj).symm.trans hr)
      rw [hnew, hget']
      exact ⟨hsub, hpending⟩
    · have hsame : s.retries.get ⟨j, hj⟩ = (s.setRetry i r').retries.get ⟨j, hj'⟩ :=
        Option.some.inj ((List.getElem?_eq_getElem hj).symm.trans hold)
      rw [hsame]
      exact ⟨rfl, id⟩
  returned := rfl

/-- A retry that moves was not at its end and has its context. -/
theorem pending_of_next (h : r.next closed cancelled m = some pc) :
    r.pc ≠ .entering ∧ (Retry.pending cancelled { r with pc } = true → r.pending cancelled = true) := by
  obtain ⟨pubsub, sub, ctx, pc₀⟩ := r
  cases pc₀ with
  | entering | done => cases m <;> cases h
  | checking | starting | recording | arming => exact ⟨by simp, fun _ => rfl⟩
  | failed | parked =>
    refine ⟨by simp, fun hp => ?_⟩
    -- a cancelled one that does not run ends with its next step
    cases hc : ctx.any (· ∈ cancelled) with
    | false => simp [Retry.pending, Retry.isCancelled, hc]
    | true =>
      have hdone : pc = .done := by
        cases m <;> simp [Retry.next, Retry.isCancelled, hc] at h
        exact h.symm
      rw [hdone] at hp
      cases hp

theorem entered_set (h : ∀ r ∈ s.retries, r.pc ≠ .entering → Entered s r) (hr' : Entered s r') :
    ∀ r ∈ (s.setRetry i r').retries, r.pc ≠ .entering → Entered s r :=
  Lib.Runs.forall_mem_set h fun _ => hr'

theorem Inv.move (h : Inv s) (hr : s.retries[i]? = some r) (hm : r.next s.closed s.cancelled m = some pc) :
    Inv (s.setRetry i { r with pc }) := by
  obtain ⟨hpc, hpending⟩ := pending_of_next hm
  have hentered : Entered s r := h.entered r (mem_of_getElem? hr) hpc
  exact h.shrink_of_flags (.of_set hr rfl hpending) (entered_set h.entered hentered) rfl rfl

theorem Inv.enter (h : Inv s) (hr : s.retries[i]? = some r) (hpc : r.pc = .entering) : Inv (enter s i r) := by
  have hawake : r.pending s.cancelled = true := by simp [Retry.pending, Pc.awake, hpc]
  unfold Retries.enter
  split
  · rename_i ctx hctx
    exact h.shrink_of_flags (.of_set hr rfl fun _ => hawake) (entered_set h.entered ⟨ctx, rfl, .inr hctx⟩) rfl rfl
  · rename_i hnone
    have hs : Shrinks s (s.setRetry i { r with ctx := some s.contexts, pc := .checking }) :=
      .of_set hr rfl fun _ => hawake
    refine h.shrink_of_flags ⟨hs.declaratives, hs.subs, hs.retries, hs.returned⟩ ?_ rfl rfl
    refine Lib.Runs.forall_mem_set (fun x hx hxpc => ?_) fun _ => ⟨s.contexts, rfl, .inr (AList.lookup_insert _)⟩
    obtain ⟨ctx, hctx, hcur⟩ := h.entered x hx hxpc
    refine ⟨ctx, hctx, hcur.imp_right fun hcur => ?_⟩
    have hne : x.pubsubName ≠ r.pubsubName := by
      intro heq
      rw [heq, hnone] at hcur
      cases hcur
    exact (AList.lookup_insert_ne hne).trans hcur

/-! ### Cancellation -/

theorem pending_of_subset {cancelled' : List Nat} (hc : cancelled ⊆ cancelled') (h : r.pending cancelled' = true) :
    r.pending cancelled = true := by
  simp only [Retry.pending, Bool.or_eq_true, Bool.and_eq_true, Bool.not_eq_true'] at h ⊢
  refine h.imp_right fun hasleep => ⟨hasleep.1, ?_⟩
  have hnot := hasleep.2
  simp only [Retry.isCancelled, Option.any_eq_false, decide_eq_false_iff_not] at hnot ⊢
  exact fun ctx hctx hmem => hnot ctx hctx (hc hmem)

/-- A retry that waits when its context is cancelled will not start anything. -/
theorem not_pending {ctx : Nat} (hasleep : r.pc.awake = false) (hctx : r.ctx = some ctx) (hmem : ctx ∈ cancelled) :
    r.pending cancelled = false := by
  simp [Retry.pending, Retry.isCancelled, hasleep, hctx, hmem]

theorem Shrinks.of_cancel (hd : s'.store.declaratives ⊆ s.store.declaratives) (hsubs : s'.appSubs.Sublist s.appSubs)
    (hretries : s'.retries = s.retries) (hc : s.cancelled ⊆ s'.cancelled) (hreturned : s'.returned = s.returned) :
    Shrinks s s' where
  declaratives := hd
  subs := hsubs
  retries := by
    rw [hretries]
    exact List.forall₂_same.2 fun r _ => ⟨rfl, pending_of_subset hc⟩
  returned := hreturned

theorem cancelRetries_spec (s : State ρ) (pubsubName : String) :
    s.cancelled ⊆ (cancelRetries s pubsubName).cancelled ∧
      ∀ r, Entered s r → Entered (cancelRetries s pubsubName) r ∧
        (r.pubsubName = pubsubName → ∃ ctx, r.ctx = some ctx ∧ ctx ∈ (cancelRetries s pubsubName).cancelled) := by
  unfold cancelRetries
  split
  · rename_i hnone
    refine ⟨List.Subset.refl _, ?_⟩
    rintro r ⟨ctx, hctx, hcur⟩
    refine ⟨⟨ctx, hctx, hcur⟩, fun hname => ⟨ctx, hctx, hcur.resolve_right fun hcur => ?_⟩⟩
    rw [hname, hnone] at hcur
    cases hcur
  · rename_i current hcurrent
    refine ⟨subset_cons_self _ _, ?_⟩
    rintro r ⟨ctx, hctx, hcur⟩
    by_cases hname : r.pubsubName = pubsubName
    · have hmem : ctx ∈ current :: s.cancelled := by
        rcases hcur with hmem | hcur
        · exact mem_cons_of_mem _ hmem
        · rw [hname, hcurrent] at hcur
          exact Option.some.inj hcur ▸ mem_cons_self
      exact ⟨⟨ctx, hctx, .inl hmem⟩, fun _ => ⟨ctx, hctx, hmem⟩⟩
    · refine ⟨⟨ctx, hctx, ?_⟩, fun h => absurd h hname⟩
      exact hcur.imp (mem_cons_of_mem _) fun hcur => (AList.lookup_erase_ne hname).trans hcur

theorem cancelAllRetries_spec (h : Entered s r) : ∃ ctx, r.ctx = some ctx ∧ ctx ∈ (cancelAllRetries s).cancelled := by
  obtain ⟨ctx, hctx, hcur⟩ := h
  refine ⟨ctx, hctx, mem_append.2 ?_⟩
  refine hcur.symm.imp_left fun hcur => ?_
  exact mem_map.2 ⟨⟨_, ctx⟩, AList.mem_lookup_iff.1 hcur, rfl⟩

theorem pc_ne_entering (hasleep : r.pc.awake = false) : r.pc ≠ .entering := by
  intro h
  rw [h] at hasleep
  cases hasleep

/-- Nothing is left to retry once all is cancelled, if no retry is in an attempt. -/
theorem Inv.not_pending_all (h : Inv s) (hasleep : ∀ r ∈ s.retries, r.pc.awake = false) :
    ∀ r ∈ s.retries, r.pending (cancelAllRetries s).cancelled = false := by
  intro r hr
  obtain ⟨ctx, hctx, hmem⟩ := cancelAllRetries_spec (h.entered r hr (pc_ne_entering (hasleep r hr)))
  exact not_pending (hasleep r hr) hctx hmem

/-- A step that cancels everything, lets go of subscriptions and changes flags. -/
theorem Inv.cancelAll (h : Inv s) (hasleep : ∀ r ∈ s.retries, r.pc.awake = false) {subs : List (Running ρ)}
    (hsubs : subs.Sublist s.appSubs) {active : Bool} (hactive : active = false → subs = []) :
    Inv { cancelAllRetries s with appSubs := subs, appSubActive := active, closed := closed } := by
  have hs : Shrinks s { cancelAllRetries s with appSubs := subs, appSubActive := active, closed := closed } :=
    .of_cancel (List.Subset.refl _) hsubs rfl (subset_append_right _ _) rfl
  refine h.shrink hs ?_ hactive fun _ => h.not_pending_all hasleep
  intro r hr hpc
  obtain ⟨ctx, hctx, hmem⟩ := cancelAllRetries_spec (h.entered r hr hpc)
  exact ⟨ctx, hctx, .inl hmem⟩

/-! ### Operations that have returned -/

theorem Inv.mark (h : Inv s) (he : Ended s (retries, target)) : Inv (s.mark retries target) where
  alone := h.alone
  linked := h.linked
  ended := by
    refine forall_mem_cons.2 ⟨⟨he.le, he.retries, he.subs⟩, fun e hmem => ?_⟩
    have hold := h.ended e hmem
    exact ⟨hold.le, hold.retries, hold.subs⟩
  entered := h.entered
  inactive := h.inactive
  idle := h.idle

theorem ended_of_owns (hle : retries ≤ s.retries.length) (h : ∀ n, s.Owns n → ¬target.covers n) :
    Ended s (retries, target) where
  le := hle
  retries _ r _ hr hcovers := by
    by_contra hp
    exact h r.sub (.inr ⟨r, mem_of_getElem? hr, by simpa using hp, rfl⟩) hcovers
  subs u hu _ _ _ := h u.sub (.inl ⟨u, hu, rfl⟩)

theorem owns_nothing (hsubs : s.appSubs = []) (hidle : ∀ r ∈ s.retries, r.pending s.cancelled = false) :
    ¬s.Owns n := by
  rintro (⟨u, hu, rfl⟩ | ⟨r, hr, hp, rfl⟩)
  · simp [hsubs] at hu
  · rw [hidle r hr] at hp
    cases hp

theorem Inv.stopApp (h : Inv s) (hasleep : ∀ r ∈ s.retries, r.pc.awake = false) :
    Inv ((stopAppSubscriptions s).mark s.retries.length .everything) := by
  unfold stopAppSubscriptions
  split
  · exact (h.cancelAll hasleep (nil_sublist _) fun _ => rfl).mark
      (ended_of_owns le_rfl fun _ hn => absurd hn (owns_nothing rfl (h.not_pending_all hasleep)))
  · rename_i hoff
    have hoff : s.appSubActive = false := by simpa using hoff
    exact h.mark (ended_of_owns le_rfl fun _ hn => absurd hn (owns_nothing (h.inactive hoff) (h.idle (.inl hoff))))

theorem Inv.stopForever (h : Inv s) (hasleep : ∀ r ∈ s.retries, r.pc.awake = false) :
    Inv ((stopAllSubscriptionsForever s).mark s.retries.length .everything) :=
  (h.cancelAll hasleep (nil_sublist _) fun _ => rfl).mark
    (ended_of_owns le_rfl fun _ hn => absurd hn (owns_nothing rfl (h.not_pending_all hasleep)))

theorem Inv.shutdown (h : Inv s) (hasleep : ∀ r ∈ s.retries, r.pc.awake = false) : Inv (shutdown s) :=
  h.cancelAll hasleep (Sublist.refl _) h.inactive

theorem stopPubSub_eq (s : State ρ) (pubsubName : String) :
    stopPubSub s pubsubName =
      { s with
        appSubs := s.appSubs.filter (·.sub.sub.pubsubName ≠ pubsubName)
        cancelled := (cancelRetries s pubsubName).cancelled
        retryCtx := (cancelRetries s pubsubName).retryCtx } := by
  rw [stopPubSub, State.stopSubs, cancelRetries_eq]

theorem Inv.stopPubSub (h : Inv s) {pubsubName : String}
    (hasleep : ∀ r ∈ s.retries, r.pubsubName = pubsubName → r.pc.awake = false) :
    Inv (stopPubSub s pubsubName) ∧ ∀ n, (stopPubSub s pubsubName).Owns n → n.sub.pubsubName ≠ pubsubName := by
  obtain ⟨hsubset, hspec⟩ := cancelRetries_spec s pubsubName
  have hs : Shrinks s (Retries.stopPubSub s pubsubName) := by
    rw [stopPubSub_eq]
    exact .of_cancel (List.Subset.refl _) filter_sublist rfl hsubset rfl
  rw [stopPubSub_eq] at hs ⊢
  refine ⟨h.shrink_of_flags hs (fun r hr hpc => (hspec r (h.entered r hr hpc)).1) rfl rfl, ?_⟩
  · rintro n (⟨u, hu, rfl⟩ | ⟨r, hr, hp, rfl⟩) hname
    · exact of_decide_eq_true (mem_filter.1 hu).2 hname
    · obtain ⟨ctx, hctx, hmem⟩ := (hspec r (h.entered r hr (pc_ne_entering (hasleep r hr hname)))).2 hname
      exact Bool.false_ne_true ((not_pending (hasleep r hr hname) hctx hmem).symm.trans hp)

end Dapr.Subscriber.Retries
