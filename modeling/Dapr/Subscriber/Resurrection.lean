import Dapr.Subscriber.Ownership
/-!
# Retries and what they bring back

In every run the state is settled as long as deletes, updates, stops and reloads do not come while a retry of what
they end is on its way (`Undisturbed`). A delete does not cancel retries at all; a reload cancels those that wait, and
not those in an attempt.
-/

namespace Dapr.Subscriber.Retries

open List
open Lib.Runs (Reachable Steps runFrom guarded runFrom_of_guarded reachable_of_guarded forall_mem_concat)
open Lib.Threads (countAt weight)

variable {ρ : Type} {s s' : State ρ} {n : NamedSubscription ρ}

/-! ## Steps that start subscriptions -/

theorem owners_launch (s : State ρ) (ok : NamedSubscription ρ → Bool)
    (jobs : List (PubSubItem × NamedSubscription ρ)) (x : SubId) :
    (s.launch ok jobs).owners x = s.owners x + jobs.countP (·.2.id = x) := by
  simp only [State.owners, State.launch, countAt, countP_append, countP_map]
  rw [countP_eq_countP_filter_add jobs (·.2.id = x) fun job => job.1.allows job.2.topic && ok job.2]
  have hretries : ∀ l : List (PubSubItem × NamedSubscription ρ),
      l.countP (Retry.pendingFor s.cancelled x ∘ fun job => ⟨job.1, job.2, none, .entering⟩) =
        l.countP (·.2.id = x) := fun l => countP_congr fun job _ => by
    simp [Retry.pendingFor, Retry.pending, Pc.awake]
  rw [hretries]
  have hsubs : ∀ l : List (PubSubItem × NamedSubscription ρ),
      l.countP ((fun u => decide (u.sub.id = x)) ∘ fun job => (⟨job.2, none⟩ : Running ρ)) =
        l.countP (·.2.id = x) := fun l => rfl
  rw [hsubs]
  omega

variable {d : DeclarativeSubscription ρ} {m : NamedSubscription ρ} {name pubsubName : String}

theorem owns_launch {ok : NamedSubscription ρ → Bool} {jobs : List (PubSubItem × NamedSubscription ρ)}
    (hn : (s.launch ok jobs).Owns n) : s.Owns n ∨ ∃ job ∈ jobs, job.2 = n := by
  rcases hn with ⟨u, hu, rfl⟩ | ⟨r, hr, hp, rfl⟩
  · rcases mem_append.1 hu with hu | hu
    · exact .inl (.inl ⟨u, hu, rfl⟩)
    · obtain ⟨job, hjob, rfl⟩ := mem_map.1 hu
      exact .inr ⟨job, mem_of_mem_filter hjob, rfl⟩
  · rcases mem_append.1 hr with hr | hr
    · exact .inl (.inr ⟨r, hr, hp, rfl⟩)
    · obtain ⟨job, hjob, rfl⟩ := mem_map.1 hr
      exact .inr ⟨job, mem_of_mem_filter hjob, rfl⟩

theorem Ended.launch {e : Nat × Target} (h : Ended s e) (ok : NamedSubscription ρ → Bool)
    (jobs : List (PubSubItem × NamedSubscription ρ)) : Ended (s.launch ok jobs) e where
  le := by
    rw [State.launch, length_append]
    exact Nat.le_add_right_of_le h.le
  retries i r hlt hr := by
    rw [State.launch, getElem?_append_left (Nat.lt_of_lt_of_le hlt h.le)] at hr
    exact h.retries i r hlt hr
  subs u hu i hi := by
    rcases mem_append.1 hu with hu | hu
    · exact h.subs u hu i hi
    · obtain ⟨job, -, rfl⟩ := mem_map.1 hu
      cases hi

/-- Subscriptions that nobody has can be started. -/
theorem Inv.launch (h : Inv s) (hactive : s.appSubActive = true) (hclosed : s.closed = false)
    (ok : NamedSubscription ρ → Bool) {jobs : List (PubSubItem × NamedSubscription ρ)}
    (hnodup : (jobs.map (·.2.id)).Nodup) (hfree : ∀ job ∈ jobs, ∀ n, s.Owns n → n.id ≠ job.2.id)
    (hlinked : ∀ job ∈ jobs, ∀ d ∈ s.store.declaratives, job.2.name = some d.name →
      d.sub.pubsubName = job.2.sub.pubsubName) : Inv (s.launch ok jobs) where
  alone x := by
    rw [owners_launch]
    have hcount : jobs.countP (·.2.id = x) ≤ 1 := by
      have hle := nodup_iff_count_le_one.1 hnodup x
      rwa [List.count, countP_map] at hle
    by_cases hmem : ∃ job ∈ jobs, job.2.id = x
    · obtain ⟨job, hjob, rfl⟩ := hmem
      rw [owners_eq_zero.2 (hfree job hjob), Nat.zero_add]
      exact hcount
    · have hzero : jobs.countP (·.2.id = x) = 0 := by
        rw [countP_eq_zero]
        exact fun job hjob hid => hmem ⟨job, hjob, of_decide_eq_true hid⟩
      rw [hzero]
      exact h.alone x
  linked n hn := by
    rcases owns_launch hn with hn | ⟨job, hjob, rfl⟩
    · exact h.linked n hn
    · exact hlinked job hjob
  ended e he := (h.ended e he).launch ok jobs
  entered r hr hpc := by
    rcases mem_append.1 hr with hr | hr
    · exact h.entered r hr hpc
    · obtain ⟨job, -, rfl⟩ := mem_map.1 hr
      exact absurd rfl hpc
  inactive hoff := by
    rw [State.launch, hactive] at hoff
    cases hoff
  idle hoff := by
    rw [State.launch, hactive, hclosed] at hoff
    simp at hoff

/-! ### What a store lists -/

section Listed
variable {store : Store ρ}

section
variable (h : n ∈ store.listSubscriptionsAppByPubSub pubsubName)
include h

theorem pubsubName_of_listed :
    n.sub.pubsubName = pubsubName ∧ (n.name = none ∨ ∃ d ∈ store.declaratives, d.named = n) := by
  rw [mem_listSubscriptionsAppByPubSub, Store.chosen, Option.or_eq_some_iff] at h
  rcases h with h | ⟨-, h⟩
  · obtain ⟨sub, hsub, rfl⟩ := Option.map_eq_some_iff.1 h
    have hfor := find?_some hsub
    exact ⟨(of_decide_eq_true hfor).1, .inl rfl⟩
  · obtain ⟨d, hd, rfl⟩ := Option.map_eq_some_iff.1 h
    have hfor := find?_some hd
    exact ⟨(of_decide_eq_true hfor).1, .inr ⟨d, mem_of_find?_eq_some hd, rfl⟩⟩

/-- A listed subscription is the one that is stored under its name. -/
theorem named_of_listed (hd : d ∈ store.declaratives) (hname : n.name = some d.name) : d.named = n := by
  rcases (pubsubName_of_listed h).2 with hnone | ⟨d', hd', rfl⟩
  · rw [hnone] at hname
    cases hname
  · have heq : d' = d := inj_on_of_nodup_map store.nodup hd' hd (Option.some.inj hname)
    rw [heq]

/-- A subscription that is on the pubsub of a listed one, if it has the name of a stored one, and has its id. -/
theorem pubsubName_of_id (hlinked : ∀ d ∈ store.declaratives, m.name = some d.name → d.sub.pubsubName = m.sub.pubsubName)
    (hid : m.id = n.id) : m.sub.pubsubName = pubsubName := by
  obtain ⟨hname, hkind⟩ := pubsubName_of_listed h
  obtain ⟨mname, msub⟩ := m
  obtain ⟨nname, nsub⟩ := n
  rcases hkind with hnone | ⟨d, hd, hdn⟩
  · subst hnone
    cases mname with
    | some _ => simp [NamedSubscription.id] at hid
    | none =>
      simp only [NamedSubscription.id, SubId.programmatic.injEq] at hid
      exact hid.1.trans hname
  · cases hdn
    cases mname with
    | none => simp [NamedSubscription.id] at hid
    | some _ =>
      simp only [NamedSubscription.id, SubId.declarative.injEq] at hid
      exact (hlinked d hd (congrArg some hid)).symm.trans hname

end

theorem eq_of_id {pubsubName' : String} (hm : m ∈ store.listSubscriptionsAppByPubSub pubsubName')
    (hn : n ∈ store.listSubscriptionsAppByPubSub pubsubName) (hid : m.id = n.id) : m = n := by
  have hlinked : ∀ d ∈ store.declaratives, m.name = some d.name → d.sub.pubsubName = m.sub.pubsubName :=
    fun d hd hname => by rw [← named_of_listed hm hd hname]; rfl
  have hsame : m.sub.pubsubName = pubsubName := pubsubName_of_id hn hlinked hid
  obtain ⟨hpubsub, hkind⟩ := pubsubName_of_listed hm
  obtain rfl : pubsubName' = pubsubName := hpubsub.symm.trans hsame
  rcases hkind with hnone | ⟨d, hd, rfl⟩
  · have htopic : m.topic = n.topic := by
      obtain ⟨mname, msub⟩ := m
      obtain ⟨nname, nsub⟩ := n
      subst hnone
      cases nname with
      | some _ => simp [NamedSubscription.id] at hid
      | none =>
        simp only [NamedSubscription.id, SubId.programmatic.injEq] at hid
        exact hid.2
    rw [mem_listSubscriptionsAppByPubSub] at hm hn
    rw [htopic] at hm
    exact Option.some.inj (hm.symm.trans hn)
  · refine named_of_listed hn hd ?_
    obtain ⟨nname, nsub⟩ := n
    cases nname with
    | none => simp [NamedSubscription.id, DeclarativeSubscription.named] at hid
    | some _ => exact congrArg some (SubId.declarative.inj hid).symm

theorem nodup_jobs (store : Store ρ) (pubsubName : String) (ps : PubSubItem) :
    ((jobs store pubsubName ps).map (·.2.id)).Nodup := by
  have hnodup : (store.listSubscriptionsAppByPubSub pubsubName).Nodup :=
    Nodup.of_map _ nodup_listSubscriptionsAppByPubSub
  rw [jobs, map_map]
  exact hnodup.map_on fun m hm n hn hid => eq_of_id hm hn hid

theorem nodup_all_jobs (store : Store ρ) :
    ((store.pubsubs.entries.flatMap fun e => jobs store e.1 e.2).map (·.2.id)).Nodup := by
  rw [map_flatMap, nodup_flatMap]
  refine ⟨fun e _ => nodup_jobs store e.1 e.2, ?_⟩
  have hkeys : store.pubsubs.entries.Pairwise fun e e' => e.1 ≠ e'.1 := pairwise_map.1 store.pubsubs.nodupKeys
  refine hkeys.imp fun {e e'} hne => ?_
  intro x hx hx'
  simp only [jobs, map_map, mem_map] at hx hx'
  obtain ⟨m, hm, rfl⟩ := hx
  obtain ⟨n, hn, hid⟩ := hx'
  have heq : n = m := eq_of_id hn hm hid
  exact hne ((pubsubName_of_listed hm).1.symm.trans (heq ▸ (pubsubName_of_listed hn).1))

end Listed

theorem Inv.startApp (h : Inv s) (ok : NamedSubscription ρ → Bool) : Inv (startAppSubscriptions s ok) := by
  unfold startAppSubscriptions
  split
  · exact h
  · rename_i hoff
    simp only [Bool.or_eq_true, not_or, Bool.not_eq_true] at hoff
    obtain ⟨hactive, hclosed⟩ := hoff
    have hidle := h.idle (.inl hactive)
    have hs : Shrinks s { s with appSubActive := true, appSubs := [] } :=
      .of_cancel (List.Subset.refl _) (nil_sublist _) rfl (List.Subset.refl _) rfl
    have hinv : Inv { s with appSubActive := true, appSubs := [] } :=
      h.shrink hs h.entered (fun _ => rfl) fun _ => hidle
    refine hinv.launch rfl hclosed ok (nodup_all_jobs s.store) ?_ ?_
    · intro job _ n hn
      exact absurd hn (owns_nothing rfl hidle)
    · intro job hjob d hd hname
      obtain ⟨e, -, hjob⟩ := mem_flatMap.1 hjob
      obtain ⟨m, hm, rfl⟩ := mem_map.1 hjob
      rw [← named_of_listed hm hd hname]
      rfl

theorem Inv.reloadPubSub (h : Inv s) (ok : NamedSubscription ρ → Bool)
    (hasleep : ∀ r ∈ s.retries, r.pubsubName = pubsubName → r.pc.awake = false)
    (hclosed : s.closed = true → s.appSubs.length = 0) :
    Inv ((reloadPubSub s pubsubName ok).mark s.retries.length (.pubsub pubsubName)) := by
  unfold Retries.reloadPubSub
  split
  · rename_i hc
    have hnil : s.appSubs = [] := length_eq_zero_iff.1 (hclosed hc)
    exact h.mark (ended_of_owns le_rfl fun _ hn => absurd hn (owns_nothing hnil (h.idle (.inr hc))))
  · rename_i hopen
    obtain ⟨hinv, howns⟩ := h.stopPubSub hasleep
    have hlen : s.retries.length ≤ (Retries.stopPubSub s pubsubName).retries.length := by rw [stopPubSub_eq]
    have hended : Ended (Retries.stopPubSub s pubsubName) (s.retries.length, .pubsub pubsubName) :=
      ended_of_owns hlen howns
    have hmarked := hinv.mark hended
    split
    · rename_i ps hactive hps
      have hstore : (Retries.stopPubSub s pubsubName).store = s.store := by rw [stopPubSub_eq]
      refine hmarked.launch ?_ ?_ ok (nodup_jobs s.store pubsubName ps) ?_ ?_
      · rw [stopPubSub_eq]
        exact hactive
      · rw [stopPubSub_eq]
        exact Bool.not_eq_true _ ▸ hopen
      · intro job hjob n hn hid
        obtain ⟨m, hm, rfl⟩ := mem_map.1 hjob
        exact howns n hn (pubsubName_of_id hm (hstore ▸ hinv.linked n hn) hid)
      · intro job hjob d hd hname
        obtain ⟨m, hm, rfl⟩ := mem_map.1 hjob
        rw [← named_of_listed hm (hstore ▸ hd) hname]
        rfl
    · exact hmarked

/-! ### One subscription -/

theorem id_eq_declarative : n.id = .declarative name ↔ n.name = some name := by
  obtain ⟨nname, nsub⟩ := n
  cases nname <;> simp [NamedSubscription.id]

theorem Shrinks.stopNamed (s : State ρ) (name pubsubName : String) : Shrinks s (s.stopNamed name pubsubName) :=
  .of_cancel (List.Subset.refl _) eraseP_sublist rfl (List.Subset.refl _) rfl

theorem Inv.stopNamed (h : Inv s) (name pubsubName : String) : Inv (s.stopNamed name pubsubName) :=
  h.shrink_of_flags (.stopNamed s name pubsubName) h.entered rfl rfl

/-- The one that is stopped is the only one. -/
theorem Inv.not_owns_stopNamed (h : Inv s)
    (hretries : ∀ r ∈ s.retries, r.sub.name = some name → r.pending s.cancelled = false)
    (hsubs : ∀ u ∈ s.appSubs, u.sub.name = some name → u.sub.sub.pubsubName = pubsubName) (n : NamedSubscription ρ)
    (hn : (s.stopNamed name pubsubName).Owns n) : n.name ≠ some name := by
  intro hname
  rcases hn with ⟨u, hu, rfl⟩ | ⟨r, hr, hp, rfl⟩
  · have hmem : u ∈ s.appSubs := eraseP_subset hu
    obtain ⟨b, before, behind, -, hb, hsplit, herase⟩ := exists_of_eraseP
      (p := fun u : Running ρ => decide (u.sub.sub.pubsubName = pubsubName ∧ u.sub.name = some name)) hmem
      (decide_eq_true ⟨hsubs u hmem hname, hname⟩)
    rw [State.stopNamed, herase] at hu
    have hb : b.sub.id = .declarative name := id_eq_declarative.2 (of_decide_eq_true hb).2
    have hu : 0 < (before ++ behind).countP (·.sub.id = .declarative name) :=
      countP_pos_iff.2 ⟨u, hu, decide_eq_true (id_eq_declarative.2 hname)⟩
    have hcons : (b :: behind).countP (·.sub.id = .declarative name) =
        behind.countP (·.sub.id = .declarative name) + 1 := countP_cons_of_pos (by simp [hb])
    have halone := h.alone (.declarative name)
    rw [State.owners, hsplit, countP_append] at halone
    rw [countP_append] at hu
    omega
  · exact Bool.false_ne_true ((hretries r hr hname).symm.trans hp)

theorem Inv.addDeclarative (h : Inv s)
    (howns : ∀ n, s.Owns n → n.name = some d.name → d.sub.pubsubName = n.sub.pubsubName) :
    Inv (s.addDeclarative d) where
  alone := h.alone
  linked n hn := forall_mem_concat (fun d' hd' => h.linked n hn d' (mem_of_mem_filter hd')) (howns n hn)
  ended e he := by
    have hold := h.ended e he
    exact ⟨hold.le, hold.retries, hold.subs⟩
  entered := h.entered
  inactive := h.inactive
  idle := h.idle

theorem Inv.add (h : Inv s) {ok : Bool} (hok : Undisturbed s (.add d ok)) :
    Inv (addDeclaredAppSubscription s d ok) := by
  obtain ⟨hretries, hsubs, hstored⟩ := hok
  unfold addDeclaredAppSubscription
  split
  · refine h.addDeclarative ?_
    rintro n (⟨u, hu, rfl⟩ | ⟨r, hr, hp, rfl⟩) hname
    · exact (hsubs u hu hname).symm
    · exact absurd ((hretries r hr hname).symm.trans hp) Bool.false_ne_true
  · rename_i hon
    simp only [Bool.or_eq_true, not_or, Bool.not_eq_true, Bool.not_eq_false'] at hon
    have hinv := h.stopNamed d.name d.sub.pubsubName
    have hfree := h.not_owns_stopNamed hretries hsubs
    have hadded := hinv.addDeclarative fun n hn hname => absurd hname (hfree n hn)
    split
    · exact hadded
    · rename_i ps _
      split
      · have hlaunched : Inv ((s.stopNamed d.name d.sub.pubsubName).launch (fun _ => ok) [(ps, d.named)]) := by
          refine hinv.launch hon.1 hon.2 _ (nodup_singleton _) ?_ ?_
          · intro job hjob n hn hid
            rw [mem_singleton] at hjob
            subst hjob
            exact hfree n hn (id_eq_declarative.1 hid)
          · intro job hjob d' hd' hname
            rw [mem_singleton] at hjob
            subst hjob
            exact hstored d' hd' (Option.some.inj hname).symm
        split
        · refine hlaunched.addDeclarative fun n hn hname => ?_
          rcases owns_launch hn with hn | ⟨job, hjob, rfl⟩
          · exact absurd hname (hfree n hn)
          · rw [mem_singleton] at hjob
            subst hjob
            rfl
        · exact hlaunched
      · exact hadded

theorem Inv.close (h : Inv s) (hok : Undisturbed s (.close name pubsubName)) :
    Inv ((handleSubscriptionClose s name pubsubName).mark s.retries.length (.subscription name)) := by
  obtain ⟨hretries, hsubs⟩ := hok
  unfold handleSubscriptionClose
  split
  · rename_i hnone
    refine h.mark (ended_of_owns le_rfl ?_)
    rintro n (⟨u, hu, rfl⟩ | ⟨r, hr, hp, rfl⟩) hname
    · obtain ⟨-, -, d, hd, hdname⟩ := hsubs u hu hname
      exact Lib.Keyed.lookup_eq_none.1 hnone d hd hdname
    · exact absurd ((hretries r hr hname).symm.trans hp) Bool.false_ne_true
  · have hs : Shrinks s { s with store := s.store.deleteDeclarativeSubscription name } :=
      .of_cancel (filter_subset_self _) (Sublist.refl _) rfl (List.Subset.refl _) rfl
    have hdeleted := h.shrink_of_flags hs h.entered rfl rfl
    split
    · rename_i hoff
      refine hdeleted.mark (ended_of_owns le_rfl ?_)
      rintro n (⟨u, hu, rfl⟩ | ⟨r, hr, hp, rfl⟩) hname
      · have hactive : s.appSubActive = true := by
          by_contra hinactive
          have hnil := h.inactive (by simpa using hinactive)
          simp [hnil] at hu
        simp [hactive, (hsubs u hu hname).2.1] at hoff
      · exact absurd ((hretries r hr hname).symm.trans hp) Bool.false_ne_true
    · exact (hdeleted.stopNamed name pubsubName).mark
        (ended_of_owns le_rfl (hdeleted.not_owns_stopNamed hretries fun u hu hname => (hsubs u hu hname).1))

theorem Inv.record {i : Nat} {r : Retry ρ} (h : Inv s) (hr : s.retries[i]? = some r) (hpc : r.pc = .recording) :
    Inv (record s i r) := by
  have hpending : r.pending s.cancelled = true := by simp [Retry.pending, Pc.awake, hpc]
  have hmem : r ∈ s.retries := mem_of_getElem? hr
  have hentered : Entered s r := h.entered r hmem (by simp [hpc])
  have hs : Shrinks s (s.setRetry i { r with pc := .done }) := .of_set hr rfl fun _ => hpending
  have hended : Inv (s.setRetry i { r with pc := .done }) :=
    h.shrink_of_flags hs (entered_set h.entered hentered) rfl rfl
  unfold Retries.record
  split
  · rename_i hon
    simp only [Bool.and_eq_true, Bool.not_eq_true'] at hon
    obtain ⟨hclosed, hactive⟩ := hon
    refine ⟨fun x => ?_, ?_, fun e he => ?_, hended.entered, fun hoff => ?_, fun hoff => ?_⟩
    · have halone : s.owners x ≤ 1 := h.alone x
      have hset := Lib.Threads.countAt_set (Retry.pendingFor s.cancelled x) hr { r with pc := .done }
      have hdone : weight (Retry.pendingFor s.cancelled x) { r with pc := .done } = 0 := rfl
      have hweight : weight (Retry.pendingFor s.cancelled x) r =
          [(⟨r.sub, some i⟩ : Running ρ)].countP (·.sub.id = x) := by
        simp [weight, Retry.pendingFor, hpending]
      simp only [State.owners, State.setRetry, countP_append] at halone ⊢
      omega
    · rintro n (⟨u, hu, rfl⟩ | ⟨r', hr', hp, rfl⟩)
      · rcases mem_append.1 hu with hu | hu
        · exact h.linked _ (.inl ⟨u, hu, rfl⟩)
        · rw [mem_singleton] at hu
          subst hu
          exact h.linked _ (.inr ⟨r, hmem, hpending, rfl⟩)
      · exact hended.linked _ (.inr ⟨r', hr', hp, rfl⟩)
    · have hold := hended.ended e he
      refine ⟨hold.le, hold.retries, forall_mem_concat hold.subs fun j hj hlt hcovers => ?_⟩
      obtain rfl : i = j := Option.some.inj hj
      exact Bool.false_ne_true (((h.ended e he).retries i r hlt hr hcovers).symm.trans hpending)
    · exact absurd (hactive.symm.trans hoff) (by simp)
    · rcases hoff with hoff | hoff
      · exact absurd (hactive.symm.trans hoff) (by simp)
      · exact absurd (hclosed.symm.trans hoff) (by simp)
  · exact hended

/-! ## Every run -/

/-- Components and programmatic subscriptions alone start and stop nothing. -/
theorem Inv.of_store (h : Inv s) {store : Store ρ} (hd : store.declaratives = s.store.declaratives) :
    Inv { s with store } :=
  have hs : Shrinks s { s with store } :=
    .of_cancel (hd ▸ List.Subset.refl _) (Sublist.refl _) rfl (List.Subset.refl _) rfl
  h.shrink_of_flags hs h.entered rfl rfl

theorem Inv.next (h : Inv s) {l : Label ρ} (hok : Undisturbed s l) (hnext : next s l = some s') : Inv s' := by
  cases l with
  | move i m =>
    simp only [Retries.next, Option.bind_eq_bind, Option.bind_eq_some_iff, Option.some.injEq] at hnext
    obtain ⟨r, hr, pc, hpc, rfl⟩ := hnext
    exact h.move hr hpc
  | enter i =>
    simp only [Retries.next, Option.bind_eq_bind, Option.bind_eq_some_iff, Option.ite_none_right_eq_some,
      Option.some.injEq] at hnext
    obtain ⟨r, hr, hpc, rfl⟩ := hnext
    exact h.enter hr hpc
  | record i =>
    simp only [Retries.next, Option.bind_eq_bind, Option.bind_eq_some_iff, Option.ite_none_right_eq_some,
      Option.some.injEq] at hnext
    obtain ⟨r, hr, hpc, rfl⟩ := hnext
    exact h.record hr hpc
  | startApp ok =>
    cases hnext
    exact h.startApp ok
  | stopApp =>
    cases hnext
    exact h.stopApp hok
  | stopForever =>
    cases hnext
    exact h.stopForever hok
  | shutdown =>
    cases hnext
    exact h.shutdown hok
  | setProgrammatics | addPubSub | deletePubSub =>
    cases hnext
    exact h.of_store rfl
  | reloadPubSub pubsubName ok =>
    cases hnext
    exact h.reloadPubSub ok hok.1 hok.2
  | stopPubSub pubsubName =>
    cases hnext
    obtain ⟨hinv, howns⟩ := h.stopPubSub hok
    exact hinv.mark (ended_of_owns (by rw [stopPubSub_eq]) howns)
  | add d ok =>
    cases hnext
    exact h.add hok
  | close name pubsubName =>
    cases hnext
    exact h.close hok

theorem settled_of_undisturbed (h : Reachable (· = State.init) (Steps Undisturbed next) s) : Settled s := by
  refine settled_of_inv (h.invariant Inv (fun s hs => hs ▸ Inv.init) fun s s' hi hs => ?_)
  obtain ⟨l, hok, hnext⟩ := hs
  exact hi.next hok hnext

/-! ## Orders -/

instance (s : State ρ) : (l : Label ρ) → Decidable (Undisturbed s l)
  | .stopApp | .stopForever | .shutdown | .stopPubSub _ => inferInstanceAs (Decidable (∀ r ∈ s.retries, _))
  | .reloadPubSub _ _ | .close _ _ | .add _ _ => inferInstanceAs (Decidable (_ ∧ _))
  | .move _ _ | .enter _ | .record _ | .startApp _ | .setProgrammatics _ | .addPubSub _ _ | .deletePubSub _ =>
    inferInstanceAs (Decidable True)

def orders : DeclarativeSubscription Unit := ⟨"orders", "redis", "created", ()⟩

/-- The broker is not there when the subscription is started, and its retry waits. -/
def untilParked : List (Label Unit) :=
  [.addPubSub "redis" ⟨[], [], []⟩, .add orders true, .startApp fun _ => false, .enter 0, .move 0 .check,
    .move 0 (.start false), .move 0 .backoff, .move 0 .park]

/-- A reload cancels the retry that waits, and leaves one behind that brings the subscription up. -/
def reloaded : List (Label Unit) :=
  untilParked ++ [.reloadPubSub "redis" fun _ => false, .move 0 .quit, .enter 1, .move 1 .check, .move 1 (.start true),
    .record 1]

theorem reload_while_parked :
    ∃ s, runFrom next State.init reloaded = some s ∧
      s.live.map (·.startedBy) = [some 1] ∧ s.returned = [(1, .pubsub "redis")] ∧ Settled s := by
  have hrun : ∃ s, runFrom (guarded Undisturbed next) State.init reloaded = some s ∧
      s.live.map (·.startedBy) = [some 1] ∧ s.returned = [(1, .pubsub "redis")] := ⟨_, rfl, rfl, rfl⟩
  obtain ⟨s, hrun, hlive, hreturned⟩ := hrun
  exact ⟨s, runFrom_of_guarded hrun, hlive, hreturned, settled_of_undisturbed (reachable_of_guarded (.start rfl) hrun)⟩

/-- A delete leaves the retry alone, which starts the subscription that is deleted. -/
theorem deleted_comes_back :
    ∃ s, runFrom next State.init
        (untilParked ++ [.close "orders" "redis", .move 0 .wake, .move 0 .check, .move 0 (.start true), .record 0]) =
          some s ∧
      s.store.declaratives = [] ∧ s.appSubs = [⟨orders.named, some 0⟩] ∧ ¬Settled s := by
  refine ⟨_, rfl, rfl, rfl, fun h => ?_⟩
  exact h.gone (1, .subscription "orders") (by decide) ⟨orders.named, some 0⟩ (mem_singleton_self _) 0 rfl
    (by decide) rfl

-- A reload does not stop a retry in its attempt, and the subscription runs twice.
example :
    (runFrom next State.init (untilParked ++ [.move 0 .wake, .move 0 .check, .reloadPubSub "redis" fun _ => true,
      .move 0 (.start true), .record 0])).map (fun s => s.appSubs.map (·.startedBy)) = some [none, some 0] := by rfl

end Dapr.Subscriber.Retries
