import Dapr.Subscriber.HotReload
/-!
# Hot reload and a fresh start agree

Along a run the subscriptions that run are those that the store chooses for the topics of its pubsubs (`Store.Runs`),
which are also those that a fresh process starts. The handlers of single subscriptions do not look at others for the
same topic. So this needs that a subscription comes in only for a topic that is free, and goes only if no other one has
waited for its topic.
-/

namespace Dapr.Subscriber

open Lib.Runs List

variable {ρ : Type} {cfg : Config ρ} {store : Store ρ} {s s' : State ρ} {d : DeclarativeSubscription ρ}
  {n : NamedSubscription ρ} {pubsubName topic name : String}

/-- The subscription is the one to run for its topic. -/
def Store.Runs (store : Store ρ) (pubsubName : String) (n : NamedSubscription ρ) : Prop :=
  ∃ ps, store.pubsubs.lookup pubsubName = some ps ∧ ps.allows n.topic = true ∧ store.chosen pubsubName n.topic = some n

theorem mem_starts : n ∈ store.starts pubsubName ↔ store.Runs pubsubName n := by
  unfold Store.starts Store.Runs
  split
  · rename_i hnone
    simp [hnone]
  · rename_i ps hps
    rw [mem_filter, mem_listSubscriptionsAppByPubSub, hps]
    constructor
    · rintro ⟨hchosen, hallowed⟩
      exact ⟨ps, rfl, hallowed, hchosen⟩
    · rintro ⟨_, ⟨⟩, hallowed, hchosen⟩
      exact ⟨hchosen, hallowed⟩

theorem nodup_starts : ((store.starts pubsubName).map (·.topic)).Nodup := by
  unfold Store.starts
  split
  · exact nodup_nil
  · exact nodup_listSubscriptionsAppByPubSub.sublist (filter_sublist.map _)

/-! ## Precedence when subscriptions come and go -/

/-- A chosen subscription with a name is a declarative one, for the topic. -/
theorem named_of_chosen (h : store.chosen pubsubName topic = some n) (hname : n.name = some name) :
    ∃ d ∈ store.declaratives, d.sub.For pubsubName topic ∧ n = d.named := by
  rw [Store.chosen, Option.or_eq_some_iff] at h
  rcases h with h | ⟨-, h⟩
  · obtain ⟨sub, -, rfl⟩ := Option.map_eq_some_iff.1 h
    cases hname
  · obtain ⟨d, hd, rfl⟩ := Option.map_eq_some_iff.1 h
    have hfor := find?_some hd
    exact ⟨d, mem_of_find?_eq_some hd, of_decide_eq_true hfor, rfl⟩

theorem chosen_eq_none (hprog : ∀ sub ∈ store.programmatics, ¬ sub.For pubsubName topic)
    (hdecl : ∀ d ∈ store.declaratives, ¬ d.sub.For pubsubName topic) : store.chosen pubsubName topic = none := by
  rw [Store.chosen, Option.or_eq_none_iff]
  constructor
  · rw [chosenProgrammatic, Option.map_eq_none_iff, find?_eq_none]
    exact fun sub hsub => by simpa using hprog sub (mem_reverse.1 hsub)
  · rw [chosenDeclarative, Option.map_eq_none_iff, find?_eq_none]
    exact fun d hd => by simpa using hdecl d hd

theorem chosen_add (hnew : ∀ d' ∈ store.declaratives, d'.name ≠ d.name) :
    (store.addDeclarativeSubscription d).chosen pubsubName topic =
      (store.chosen pubsubName topic).or (if d.sub.For pubsubName topic then some d.named else none) := by
  have hfilter : store.declaratives.filter (·.name ≠ d.name) = store.declaratives :=
    filter_eq_self.2 fun d' hd' => by simpa using hnew d' hd'
  simp only [Store.chosen, Store.addDeclarativeSubscription, hfilter, chosenDeclarative, find?_append,
    Option.map_or, Option.or_assoc]
  congr 2
  by_cases hfor : d.sub.For pubsubName topic <;> simp

theorem chosen_delete_of_ne (hd : d ∈ store.declaratives) (hne : store.chosen pubsubName topic ≠ some d.named) :
    (store.deleteDeclarativeSubscription d.name).chosen pubsubName topic = store.chosen pubsubName topic := by
  simp only [Store.chosen, Store.deleteDeclarativeSubscription] at hne ⊢
  cases hprog : chosenProgrammatic store.programmatics pubsubName topic with
  | some n => rfl
  | none =>
    rw [hprog, Option.none_or] at hne
    rw [Option.none_or, Option.none_or, chosenDeclarative, chosenDeclarative, Lib.Keyed.find?_filter]
    intro d' hd'
    rw [decide_eq_true_eq]
    intro hname
    -- names are unique
    have heq : d' = d := inj_on_of_nodup_map store.nodup (mem_of_find?_eq_some hd') hd hname
    exact hne (by rw [chosenDeclarative, hd', heq, Option.map_some])

/-- If no other one is for the topic of the chosen one, nothing is chosen without it. -/
theorem chosen_delete_of_eq (halone : ∀ d' ∈ store.declaratives, d'.name ≠ d.name → ¬ d'.sub.For pubsubName topic)
    (heq : store.chosen pubsubName topic = some d.named) :
    (store.deleteDeclarativeSubscription d.name).chosen pubsubName topic = none := by
  refine chosen_eq_none (fun sub hsub hfor => ?_) fun d' hd' => ?_
  · rw [Store.chosen, Option.or_eq_some_iff] at heq
    rcases heq with h | ⟨h, -⟩
    · obtain ⟨_, -, h⟩ := Option.map_eq_some_iff.1 h
      cases h
    · rw [chosenProgrammatic, Option.map_eq_none_iff, find?_eq_none] at h
      exact absurd hfor (by simpa using h sub (mem_reverse.2 hsub))
  · obtain ⟨hmem, hne⟩ := mem_filter.1 hd'
    exact halone d' hmem (of_decide_eq_true hne)

/-- The store without `d` runs everything else, unless a subscription for its topic has waited. -/
theorem runs_delete (hd : d ∈ store.declaratives)
    (halone : store.Runs d.sub.pubsubName d.named →
      ∀ d' ∈ store.declaratives, d'.name ≠ d.name → ¬ d'.sub.For d.sub.pubsubName d.sub.topic) :
    (store.deleteDeclarativeSubscription d.name).Runs pubsubName n ↔ store.Runs pubsubName n ∧ n ≠ d.named := by
  constructor
  · rintro ⟨ps, hps, hallowed, hchosen⟩
    by_cases hd' : store.chosen pubsubName n.topic = some d.named
    · obtain ⟨d', -, ⟨hname, htopic⟩, heq⟩ := named_of_chosen hd' rfl
      have hsub : d.sub = d'.sub := congrArg NamedSubscription.sub heq
      rw [← hsub] at hname htopic
      have hruns : store.Runs d.sub.pubsubName d.named := by
        rw [hname]
        exact ⟨ps, hps, by rwa [NamedSubscription.topic, DeclarativeSubscription.named, htopic],
          by rwa [NamedSubscription.topic, DeclarativeSubscription.named, htopic]⟩
      rw [chosen_delete_of_eq (hname ▸ htopic ▸ halone hruns) hd'] at hchosen
      cases hchosen
    · rw [chosen_delete_of_ne hd hd'] at hchosen
      exact ⟨⟨ps, hps, hallowed, hchosen⟩, fun heq => hd' (heq ▸ hchosen)⟩
  · rintro ⟨⟨ps, hps, hallowed, hchosen⟩, hne⟩
    refine ⟨ps, hps, hallowed, ?_⟩
    rw [chosen_delete_of_ne hd (by rw [hchosen]; exact fun h => hne (Option.some.inj h)), hchosen]

/-- The subscription can start: its pubsub is there and allows its topic. -/
def Store.startsSub (store : Store ρ) (sub : Subscription ρ) : Bool :=
  (store.pubsubs.lookup sub.pubsubName).any (·.allows sub.topic)

theorem startsSub_iff {sub : Subscription ρ} :
    store.startsSub sub = true ↔ ∃ ps, store.pubsubs.lookup sub.pubsubName = some ps ∧ ps.allows sub.topic = true := by
  unfold Store.startsSub
  cases store.pubsubs.lookup sub.pubsubName <;> simp

/-- The store with a new one for a free topic runs that too. -/
theorem runs_add (hnew : ∀ d' ∈ store.declaratives, d'.name ≠ d.name)
    (hfree : store.startsSub d.sub = true → store.chosen d.sub.pubsubName d.sub.topic = none) :
    (store.addDeclarativeSubscription d).Runs pubsubName n ↔ store.Runs pubsubName n ∨
      n = d.named ∧ pubsubName = d.sub.pubsubName ∧ store.startsSub d.sub = true := by
  constructor
  · rintro ⟨ps, hps, hallowed, hchosen⟩
    rw [chosen_add hnew, Option.or_eq_some_iff] at hchosen
    rcases hchosen with hchosen | ⟨-, hchosen⟩
    · exact .inl ⟨ps, hps, hallowed, hchosen⟩
    · split at hchosen
      · rename_i hfor
        obtain rfl : d.named = n := Option.some.inj hchosen
        exact .inr ⟨rfl, hfor.1.symm, startsSub_iff.2 ⟨ps, hfor.1 ▸ hps, hallowed⟩⟩
      · cases hchosen
  · rintro (⟨ps, hps, hallowed, hchosen⟩ | ⟨rfl, rfl, hstarts⟩)
    · exact ⟨ps, hps, hallowed, by rw [chosen_add hnew, hchosen, Option.some_or]⟩
    · obtain ⟨ps, hps, hallowed⟩ := startsSub_iff.1 hstarts
      refine ⟨ps, hps, hallowed, ?_⟩
      have hnone : store.chosen d.sub.pubsubName d.named.topic = none := hfree hstarts
      rw [chosen_add hnew, hnone, Option.none_or, if_pos ⟨rfl, rfl⟩]

/-! ## The invariant -/

/-- The programmatic subscriptions of the store are the application's, once loaded. -/
structure Loads (cfg : Config ρ) (s : State ρ) : Prop where
  loaded : s.hasInitProg = true → cfg.programmatics = some s.store.programmatics
  unloaded : s.hasInitProg = false → s.store.programmatics = []

/-- Once there is a pubsub, the programmatic subscriptions are loaded if the application has any. -/
def Ready (cfg : Config ρ) (s : State ρ) : Prop :=
  s.store.pubsubs.keys ≠ [] → s.hasInitProg = true ∨ cfg.programmatics = none

/-- While subscriptions are active, those run that the store chooses. -/
structure Inv (cfg : Config ρ) (s : State ρ) : Prop extends Loads cfg s where
  idle : s.appSubActive = false → ∀ pubsubName, s.appSubs pubsubName = []
  ready : s.appSubActive = true → Ready cfg s
  nodup : ∀ pubsubName, ((s.appSubs pubsubName).map (·.topic)).Nodup
  runs : s.appSubActive = true → ∀ pubsubName n, n ∈ s.appSubs pubsubName ↔ s.store.Runs pubsubName n

theorem inv_empty : Inv cfg (.fresh .empty) where
  loaded h := by cases h
  unloaded _ := rfl
  idle _ _ := rfl
  ready h := by cases h
  nodup _ := nodup_nil
  runs h := by cases h

theorem initProgrammatic_cases (cfg : Config ρ) (s : State ρ) :
    initProgrammaticSubscriptions cfg s = s ∧ Ready cfg s ∨
      s.hasInitProg = false ∧ s.store.pubsubs.keys ≠ [] ∧ ∃ programmatics, cfg.programmatics = some programmatics ∧
        initProgrammaticSubscriptions cfg s =
          { s with store := s.store.setProgrammaticSubscriptions programmatics, hasInitProg := true } := by
  unfold initProgrammaticSubscriptions
  split
  · rename_i hnone
    exact .inl ⟨rfl, fun _ => .inr hnone⟩
  · rename_i programmatics hsome
    split
    · rename_i h
      exact .inl ⟨rfl, fun hne => .inl (h.resolve_right hne)⟩
    · rename_i h
      rw [not_or, Bool.not_eq_true] at h
      exact .inr ⟨h.1, h.2, programmatics, hsome, rfl⟩

theorem Loads.initProgrammatic (h : Loads cfg s) :
    Loads cfg (initProgrammaticSubscriptions cfg s) ∧ Ready cfg (initProgrammaticSubscriptions cfg s) := by
  rcases initProgrammatic_cases cfg s with ⟨heq, hready⟩ | ⟨-, -, programmatics, hcfg, heq⟩
  · rw [heq]
    exact ⟨h, hready⟩
  · rw [heq]
    exact ⟨⟨fun _ => hcfg, nofun⟩, fun _ => .inl rfl⟩

theorem Inv.start (h : Inv cfg s) : Inv cfg (startAppSubscriptions cfg s) := by
  unfold startAppSubscriptions
  split
  · exact h
  · obtain ⟨hloads, hready⟩ := h.toLoads.initProgrammatic
    exact {
      loaded := hloads.loaded
      unloaded := hloads.unloaded
      idle := nofun
      ready := fun _ => hready
      nodup := fun _ => nodup_starts
      runs := fun _ _ _ => mem_starts }

theorem Inv.stop (h : Inv cfg s) : Inv cfg (stopAppSubscriptions s) := by
  unfold stopAppSubscriptions
  split
  · exact {
      loaded := h.loaded
      unloaded := h.unloaded
      idle := fun _ _ => rfl
      ready := nofun
      nodup := fun _ => nodup_nil
      runs := nofun }
  · exact h

theorem runs_congr {store' : Store ρ} (hpubsubs : store'.pubsubs.lookup pubsubName = store.pubsubs.lookup pubsubName)
    (hprog : store'.programmatics = store.programmatics) (hdecl : store'.declaratives = store.declaratives) :
    store'.Runs pubsubName n ↔ store.Runs pubsubName n := by
  simp only [Store.Runs, Store.chosen, hpubsubs, hprog, hdecl]

theorem not_runs (h : store.pubsubs.lookup pubsubName = none) : ¬ store.Runs pubsubName n := by
  rintro ⟨ps, hps, -⟩
  rw [h] at hps
  cases hps

/-- A step that changes what runs on one pubsub. -/
theorem Inv.of_setSubs (h : Inv cfg s) {subs : List (NamedSubscription ρ)} (hactive : s'.appSubActive = s.appSubActive)
    (hsubs : s'.appSubs = Function.update s.appSubs pubsubName subs) (hloads : Loads cfg s')
    (hready : s.appSubActive = true → Ready cfg s') (hnodup : (subs.map (·.topic)).Nodup)
    (hidle : s.appSubActive = false → subs = [])
    (hruns : s.appSubActive = true → ∀ n, n ∈ subs ↔ s'.store.Runs pubsubName n)
    (hothers : s.appSubActive = true → ∀ other ≠ pubsubName, ∀ n, s'.store.Runs other n ↔ s.store.Runs other n) :
    Inv cfg s' where
  toLoads := hloads
  idle hf other := by
    rw [hactive] at hf
    rw [hsubs]
    by_cases hother : other = pubsubName
    · subst hother
      rw [Function.update_self, hidle hf]
    · rw [Function.update_of_ne hother, h.idle hf]
  ready ht := hready (hactive ▸ ht)
  nodup other := by
    rw [hsubs]
    by_cases hother : other = pubsubName
    · subst hother
      rwa [Function.update_self]
    · rw [Function.update_of_ne hother]
      exact h.nodup other
  runs ht other n := by
    rw [hactive] at ht
    rw [hsubs]
    by_cases hother : other = pubsubName
    · subst hother
      rw [Function.update_self, hruns ht]
    · rw [Function.update_of_ne hother, h.runs ht, hothers ht other hother]

theorem Inv.close (h : Inv cfg s) : Inv cfg (closePubSub s pubsubName) := by
  refine h.of_setSubs rfl rfl ⟨h.loaded, h.unloaded⟩ (fun ht hne => ?_) nodup_nil (fun _ => rfl) (fun _ n => ?_)
    fun _ other hother n => ?_
  · refine h.ready ht fun hempty => hne ?_
    rw [closePubSub, Store.deletePubSub, AList.keys_erase, hempty, erase_nil]
  · simp only [not_mem_nil, false_iff]
    exact not_runs (AList.lookup_erase pubsubName _)
  · exact runs_congr (AList.lookup_erase_ne hother) rfl rfl

theorem Inv.init (h : Inv cfg s) {ps : PubSubItem} : Inv cfg (initPubSub cfg s pubsubName ps) := by
  unfold initPubSub reloadPubSub
  by_cases hactive : s.appSubActive = true
  · rw [if_pos hactive]
    rcases initProgrammatic_cases cfg (State.setSubs { s with store := s.store.addPubSub pubsubName ps } pubsubName [])
      with ⟨heq, hready⟩ | ⟨hinit, -, programmatics, hcfg, heq⟩
    · rw [heq]
      exact h.of_setSubs rfl (Function.update_idem ..) ⟨h.loaded, h.unloaded⟩ (fun _ => hready) nodup_starts
        (fun hf => by simp [hactive] at hf) (fun _ _ => mem_starts)
        fun _ other hother n => runs_congr (AList.lookup_insert_ne hother) rfl rfl
    · -- there was no pubsub at all before
      rw [heq]
      have hempty : s.store.pubsubs.keys = [] := by
        by_contra hne
        rcases h.ready hactive hne with ht | hnone
        · exact absurd (ht.symm.trans hinit) (by simp)
        · rw [hcfg] at hnone
          cases hnone
      refine h.of_setSubs rfl (Function.update_idem ..) ⟨fun _ => hcfg, nofun⟩ (fun _ _ => .inl rfl)
        nodup_starts (fun hf => by simp [hactive] at hf) (fun _ _ => mem_starts) fun _ other hother n => ?_
      have hnone : AList.lookup other s.store.pubsubs = none :=
        AList.lookup_eq_none.2 fun hmem => by simp [AList.mem_keys, hempty] at hmem
      exact iff_of_false (not_runs ((AList.lookup_insert_ne hother).trans hnone)) (not_runs hnone)
  · rw [if_neg hactive]
    exact h.of_setSubs rfl rfl ⟨h.loaded, h.unloaded⟩ (fun ht => absurd ht hactive) nodup_nil (fun _ => rfl)
      (fun ht => absurd ht hactive) (fun ht => absurd ht hactive)

/-! ## Single subscriptions -/

theorem mem_declaratives (h : store.getDeclarativeSubscription name = some d) : d ∈ store.declaratives ∧ d.name = name :=
  (Lib.Keyed.lookup_eq_some store.nodup).1 h

/-- What runs under the name of `d` is `d`. -/
theorem Store.Runs.eq_named (h : store.Runs pubsubName n) (hd : d ∈ store.declaratives) (hname : n.name = some d.name) :
    n = d.named ∧ pubsubName = d.sub.pubsubName := by
  obtain ⟨ps, -, -, hchosen⟩ := h
  obtain ⟨d', hd', hfor, rfl⟩ := named_of_chosen hchosen hname
  have heq : d' = d := inj_on_of_nodup_map store.nodup hd' hd (Option.some.inj hname)
  subst heq
  exact ⟨rfl, hfor.1.symm⟩

theorem Inv.of_inactive (h : Inv cfg s) (hf : s.appSubActive = false) {store' : Store ρ}
    (hprog : store'.programmatics = s.store.programmatics) : Inv cfg { s with store := store' } where
  loaded ht := by rw [hprog]; exact h.loaded ht
  unloaded ht := by rw [hprog]; exact h.unloaded ht
  idle := h.idle
  ready ht := by simp [hf] at ht
  nodup := h.nodup
  runs ht := by simp [hf] at ht

/-- If `d` runs, no other declarative subscription is for its topic. -/
def State.Replaceable (s : State ρ) (d : DeclarativeSubscription ρ) : Prop :=
  d.named ∈ s.appSubs d.sub.pubsubName →
    ∀ d' ∈ s.store.declaratives, d'.name ≠ d.name → ¬ d'.sub.For d.sub.pubsubName d.sub.topic

/-- What runs on a pubsub without the subscription of that name. -/
def State.without (s : State ρ) (name pubsubName : String) : List (NamedSubscription ρ) :=
  (s.appSubs pubsubName).eraseP (·.name = some name)

theorem reload_none (hactive : s.appSubActive = true) :
    reloadDeclaredAppSubscription s name pubsubName none = s.setSubs pubsubName (s.without name pubsubName) := by
  rw [reloadDeclaredAppSubscription, if_pos hactive]
  cases s.store.pubsubs.lookup pubsubName <;> rfl

theorem reload_some (hactive : s.appSubActive = true) :
    reloadDeclaredAppSubscription s d.name d.sub.pubsubName (some d.sub) = s.setSubs d.sub.pubsubName
      (s.without d.name d.sub.pubsubName ++ if s.store.startsSub d.sub then [d.named] else []) := by
  rw [reloadDeclaredAppSubscription, if_pos hactive, Store.startsSub]
  cases s.store.pubsubs.lookup d.sub.pubsubName with
  | none => simp [State.without]
  | some ps =>
    by_cases hallowed : ps.allows d.sub.topic = true
    · simp [hallowed, State.setSubs, State.without, DeclarativeSubscription.named]
    · simp [hallowed, State.without]

theorem nodup_without (h : Inv cfg s) : ((s.without name pubsubName).map (·.topic)).Nodup :=
  (h.nodup pubsubName).sublist (eraseP_sublist.map _)

theorem without_of_inactive (h : Inv cfg s) (hf : s.appSubActive = false) : s.without name pubsubName = [] := by
  rw [State.without, h.idle hf]
  rfl

theorem Inv.mem_without (h : Inv cfg s) (hactive : s.appSubActive = true) (hd : d ∈ s.store.declaratives) :
    n ∈ s.without d.name pubsubName ↔ s.store.Runs pubsubName n ∧ n ≠ d.named := by
  have huniq : ∀ a ∈ s.appSubs pubsubName, a.name = some d.name → a = d.named := fun a ha hname =>
    (((h.runs hactive _ _).1 ha).eq_named hd hname).1
  rw [State.without, Lib.Keyed.mem_eraseP (Nodup.of_map _ (h.nodup pubsubName)), ← h.runs hactive]
  · refine and_congr_right fun hn => ?_
    rw [decide_eq_false_iff_not, not_iff_not]
    exact ⟨huniq n hn, fun heq => by rw [heq]; rfl⟩
  · intro a ha b hb hpa hpb
    rw [huniq a ha (of_decide_eq_true hpa), huniq b hb (of_decide_eq_true hpb)]

theorem Inv.closeSubscription (h : Inv cfg s) (hget : s.store.getDeclarativeSubscription name = some d)
    (hd : s.appSubActive = true →
      s.Replaceable d ∧ (d.named ∈ s.appSubs d.sub.pubsubName → d.sub.pubsubName = pubsubName)) :
    Inv cfg (handleSubscriptionClose s name pubsubName) := by
  obtain ⟨hmem, rfl⟩ := mem_declaratives hget
  simp only [handleSubscriptionClose, hget]
  by_cases hactive : s.appSubActive = true
  · obtain ⟨hreplaceable, hpubsub⟩ := hd hactive
    have hdelete : ∀ {pubsubName : String} {n : NamedSubscription ρ},
        (s.store.deleteDeclarativeSubscription d.name).Runs pubsubName n ↔ s.store.Runs pubsubName n ∧ n ≠ d.named :=
      runs_delete hmem fun hruns => hreplaceable ((h.runs hactive _ _).2 hruns)
    have hactive' : State.appSubActive { s with store := s.store.deleteDeclarativeSubscription d.name } = true := hactive
    rw [reload_none hactive']
    change Inv cfg (State.setSubs _ pubsubName (s.without d.name pubsubName))
    refine h.of_setSubs rfl rfl ⟨h.loaded, h.unloaded⟩ h.ready (nodup_without h) (without_of_inactive h)
      (fun _ n => ?_) fun _ other hother n => ?_
    · exact (h.mem_without hactive hmem).trans hdelete.symm
    · refine hdelete.trans (and_iff_left_of_imp fun hruns heq => ?_)
      -- `d` runs on its pubsub only
      rw [heq] at hruns
      have hname := (hruns.eq_named hmem rfl).2
      rw [hname] at hruns hother
      exact hother (hpubsub ((h.runs hactive _ _).2 hruns))
  · rw [reloadDeclaredAppSubscription, if_neg hactive]
    exact h.of_inactive (by simpa using hactive) rfl

/-- If `d` can start, no other subscription is for its topic. -/
def State.Free (s : State ρ) (d : DeclarativeSubscription ρ) : Prop :=
  s.store.startsSub d.sub = true →
    (∀ sub ∈ s.store.programmatics, ¬ sub.For d.sub.pubsubName d.sub.topic) ∧
      ∀ d' ∈ s.store.declaratives, d'.name ≠ d.name → ¬ d'.sub.For d.sub.pubsubName d.sub.topic

theorem Inv.addDeclared (h : Inv cfg s)
    (hd : s.appSubActive = true → s.store.getDeclarativeSubscription d.name = none ∧ s.Free d) :
    Inv cfg (addDeclaredAppSubscription s d) := by
  unfold addDeclaredAppSubscription
  by_cases hactive : s.appSubActive = true
  · obtain ⟨hget, hfree⟩ := hd hactive
    have hnew : ∀ d' ∈ s.store.declaratives, d'.name ≠ d.name := Lib.Keyed.lookup_eq_none.1 hget
    have hnone : s.store.startsSub d.sub = true → s.store.chosen d.sub.pubsubName d.sub.topic = none := fun hstarts =>
      chosen_eq_none (hfree hstarts).1 fun d' hd' => (hfree hstarts).2 d' hd' (hnew d' hd')
    have hwithout : s.without d.name d.sub.pubsubName = s.appSubs d.sub.pubsubName := by
      refine eraseP_of_forall_not fun n hn hname => ?_
      obtain ⟨ps, -, -, hchosen⟩ := (h.runs hactive _ _).1 hn
      obtain ⟨d', hd', -, rfl⟩ := named_of_chosen hchosen (of_decide_eq_true hname)
      exact hnew d' hd' (Option.some.inj (of_decide_eq_true hname))
    rw [reload_some hactive, hwithout]
    refine h.of_setSubs rfl rfl ⟨h.loaded, h.unloaded⟩ h.ready ?_ (fun hf => by simp [hactive] at hf) (fun _ n => ?_)
      fun _ other hother n => ?_
    · rw [map_append, nodup_append]
      refine ⟨h.nodup _, by split <;> simp, ?_⟩
      intro a ha b hb
      split at hb
      · rename_i hstarts
        obtain ⟨n, hn, rfl⟩ := mem_map.1 ha
        rw [map_singleton, mem_singleton] at hb
        rintro rfl
        obtain ⟨ps, -, -, hchosen⟩ := (h.runs hactive _ _).1 hn
        have hnone : s.store.chosen d.sub.pubsubName d.named.topic = none := hnone hstarts
        rw [hb, hnone] at hchosen
        cases hchosen
      · cases hb
    · rw [mem_append, h.runs hactive]
      refine Iff.trans ?_ (runs_add hnew hnone).symm
      by_cases hstarts : s.store.startsSub d.sub = true <;> simp [hstarts]
    · exact (runs_add hnew hnone).trans (or_iff_left fun hn => hother hn.2.1)
  · rw [reloadDeclaredAppSubscription, if_neg hactive]
    exact h.of_inactive (by simpa using hactive) rfl

/-! ## Runs -/

/-- Events that leave topics to one subscription. A subscription that can start is added only if no other one is for
its topic. One that runs is deleted, from its own pubsub, or updated, only if no other declarative one is for its
topic. -/
def Exclusive (cfg : Config ρ) (s : State ρ) : Event ρ → Prop
  | .add res => s.appSubActive = true → s.store.getDeclarativeSubscription res.name = none ∧
      ∀ d, res.admitted cfg = some d → s.Free d
  | .update res => s.appSubActive = true → (∀ d, s.store.getDeclarativeSubscription res.name = some d → s.Replaceable d) ∧
      ∀ d, res.admitted cfg = some d → s.Free d
  | .delete name pubsubName => s.appSubActive = true → ∀ d, s.store.getDeclarativeSubscription name = some d →
      s.Replaceable d ∧ (d.named ∈ s.appSubs d.sub.pubsubName → d.sub.pubsubName = pubsubName)
  | _ => True

theorem name_of_admitted {res : Resource ρ} (h : res.admitted cfg = some d) : d.name = res.name := by
  unfold Resource.admitted at h
  split at h
  · cases h
  · obtain ⟨route, -, rfl⟩ := Option.map_eq_some_iff.1 h
    rfl

theorem Inv.add (h : Inv cfg s) {res : Resource ρ}
    (hres : s.appSubActive = true → s.store.getDeclarativeSubscription res.name = none ∧
      ∀ d, res.admitted cfg = some d → s.Free d) : Inv cfg (handleSubscriptionAdd cfg s res) := by
  unfold handleSubscriptionAdd
  split
  · exact h
  · rename_i d hd
    refine h.addDeclared fun hactive => ?_
    obtain ⟨hget, hfree⟩ := hres hactive
    exact ⟨name_of_admitted hd ▸ hget, hfree d hd⟩

theorem handleSubscriptionClose_store (hget : s.store.getDeclarativeSubscription name = some d) (pubsubName : String) :
    (handleSubscriptionClose s name pubsubName).store = s.store.deleteDeclarativeSubscription name ∧
      (handleSubscriptionClose s name pubsubName).appSubActive = s.appSubActive := by
  simp only [handleSubscriptionClose, hget]
  by_cases hactive : s.appSubActive = true
  · have hactive' : State.appSubActive { s with store := s.store.deleteDeclarativeSubscription name } = true := hactive
    rw [reload_none hactive']
    exact ⟨rfl, rfl⟩
  · rw [reloadDeclaredAppSubscription, if_neg hactive]
    exact ⟨rfl, rfl⟩

theorem getDeclarative_delete : (store.deleteDeclarativeSubscription name).getDeclarativeSubscription name = none :=
  Lib.Keyed.lookup_eq_none.2 fun _ hd => of_decide_eq_true (mem_filter.1 hd).2

theorem Inv.update (h : Inv cfg s) {res : Resource ρ}
    (hres : s.appSubActive = true → (∀ d, s.store.getDeclarativeSubscription res.name = some d → s.Replaceable d) ∧
      ∀ d, res.admitted cfg = some d → s.Free d) : Inv cfg (updateSubscription cfg s res) := by
  unfold updateSubscription
  split
  · rename_i hnone
    exact h.add fun hactive => ⟨hnone, (hres hactive).2⟩
  · rename_i old hold
    obtain ⟨-, hname⟩ := mem_declaratives hold
    rw [hname]
    obtain ⟨hstore, hactive'⟩ := handleSubscriptionClose_store hold old.sub.pubsubName
    have hclose : Inv cfg (handleSubscriptionClose s res.name old.sub.pubsubName) :=
      h.closeSubscription hold fun hactive => ⟨(hres hactive).1 old hold, fun _ => rfl⟩
    refine hclose.add fun hactive => ?_
    rw [hactive'] at hactive
    rw [hstore]
    refine ⟨getDeclarative_delete, fun d hd hstarts => ?_⟩
    rw [hstore] at hstarts ⊢
    obtain ⟨hprog, hdecl⟩ := (hres hactive).2 d hd hstarts
    exact ⟨hprog, fun d' hd' => hdecl d' (mem_filter.1 hd').1⟩

theorem inv_handle {ev : Event ρ} (h : Inv cfg s) (hev : Exclusive cfg s ev) : Inv cfg (handle cfg s ev) := by
  cases ev with
  | start => exact h.start
  | stop => exact h.stop
  | add res => exact h.add hev
  | update res => exact h.update hev
  | delete name pubsubName =>
    cases hget : s.store.getDeclarativeSubscription name with
    | none =>
      simp only [handle, handleSubscriptionClose, hget]
      exact h
    | some d => exact h.closeSubscription hget fun hactive => hev hactive d hget
  | init pubsubName ps => exact h.init
  | close pubsubName => exact h.close

/-- A fresh process would load the same programmatic subscriptions. -/
theorem Inv.fresh_store (h : Inv cfg s) (hactive : s.appSubActive = true) :
    (initProgrammaticSubscriptions cfg (.fresh s.store)).store = s.store := by
  rcases initProgrammatic_cases cfg (.fresh s.store) with ⟨heq, -⟩ | ⟨-, hne, programmatics, hcfg, heq⟩
  · rw [heq]
    rfl
  · rw [heq]
    have hloaded := h.loaded ((h.ready hactive hne).resolve_right (by simp [hcfg]))
    rw [hcfg, Option.some_inj] at hloaded
    subst hloaded
    rfl

/-- What runs on each pubsub is what a fresh process would start from the same store, one subscription for a topic. -/
def Confluent (cfg : Config ρ) (s : State ρ) : Prop :=
  s.appSubActive = true → ∀ pubsubName,
    (s.appSubs pubsubName).Perm ((startAppSubscriptions cfg (.fresh s.store)).appSubs pubsubName) ∧
      ((s.appSubs pubsubName).map (·.topic)).Nodup

theorem Inv.confluent (h : Inv cfg s) : Confluent cfg s := by
  intro hactive pubsubName
  have hfresh : (startAppSubscriptions cfg (.fresh s.store)).appSubs = s.store.starts := by
    change (initProgrammaticSubscriptions cfg (.fresh s.store)).store.starts = s.store.starts
    rw [h.fresh_store hactive]
  rw [hfresh]
  refine ⟨Lib.Keyed.perm_of_mem_iff (h.nodup pubsubName) nodup_starts fun n => ?_, h.nodup pubsubName⟩
  rw [h.runs hactive, mem_starts]

theorem confluent_of_exclusive (h : Reachable (· = State.fresh .empty) (Steps (Exclusive cfg) (next cfg)) s) :
    Confluent cfg s := by
  refine Inv.confluent (h.invariant (Inv cfg) (fun s hs => by subst hs; exact inv_empty) fun s s' hi hs => ?_)
  obtain ⟨ev, hev, hnext⟩ := hs
  obtain ⟨-, rfl⟩ := Lib.Runs.of_guard hnext
  exact inv_handle hi hev

/-! ## Orders and invoices -/

/-- An application without programmatic subscriptions. -/
def shop : Config Unit := ⟨"shop", some []⟩

def resource (name topic : String) : Resource Unit := ⟨name, "redis", topic, [], some ()⟩

def unscoped : PubSubItem := ⟨[], [], []⟩

/-- Subscriptions have started on a pubsub. -/
def started : State Unit := startAppSubscriptions shop (initPubSub shop (.fresh .empty) "redis" unscoped)

theorem invoices_are_added :
    ∃ s, runFrom (next shop) started [.add (resource "orders" "created"), .add (resource "invoices" "paid")] = some s ∧
      (s.appSubs "redis").map (·.topic) = ["created", "paid"] ∧ Confluent shop s := by
  have hinit : Reachable (· = State.fresh .empty) (Steps (Exclusive shop) (next shop))
      (initPubSub shop (.fresh .empty) "redis" unscoped) :=
    Reachable.step (Reachable.start rfl) ⟨.init "redis" unscoped, trivial, rfl⟩
  have hstarted : Reachable (· = State.fresh .empty) (Steps (Exclusive shop) (next shop)) started :=
    hinit.step ⟨.start, trivial, rfl⟩
  have horders : Exclusive shop started (.add (resource "orders" "created")) := by
    refine fun _ => ⟨rfl, fun d hd _ => ?_⟩
    cases hd
    decide
  have hinvoices : Exclusive shop (handleSubscriptionAdd shop started (resource "orders" "created"))
      (.add (resource "invoices" "paid")) := by
    refine fun _ => ⟨rfl, fun d hd _ => ?_⟩
    cases hd
    decide
  exact ⟨_, rfl, rfl, confluent_of_exclusive ((hstarted.step ⟨_, horders, rfl⟩).step ⟨_, hinvoices, rfl⟩)⟩

/-- The second subscription for a topic is not started when the first one is deleted. -/
theorem created_is_left_alone :
    ∃ s, runFrom (next shop) (.fresh .empty)
        [.add (resource "orders" "created"), .add (resource "orders-v2" "created"), .init "redis" unscoped, .start,
          .delete "orders" "redis"] = some s ∧
      s.appSubs "redis" = [] ∧ ¬ Confluent shop s := by
  refine ⟨_, rfl, rfl, fun h => ?_⟩
  have hlength := (h rfl "redis").1.length_eq
  exact absurd hlength (by decide)

-- A subscription that is added runs beside the one that has its topic.
example :
    (runFrom (next shop) started [.add (resource "orders" "created"), .add (resource "orders-v2" "created")]).map
      (fun s => (s.appSubs "redis").map (·.name)) = some [some "orders", some "orders-v2"] := by decide

end Dapr.Subscriber
