import Dapr.PubSub.BulkDelivery
/-!
# What the bulk handler acknowledges

An entry that the handler reports as successful was processed: the application answered for it, it was
dropped, or it was published to the dead-letter topic. This needs that every entry is heard: no entry fails
without `err` being set, and no path sets the responses of one that is not heard of.
-/

namespace Dapr.BulkSubscription

open List
open Dapr.BulkSubscriber (Outcome)

variable {Event CloudEvent : Type} {sub : Subscription Event CloudEvent} {rawPayload : Bool} {R : List Response}

/-! ## The entries -/

/-- The finding puts a message for the entry under the path. -/
def Finding.Delivers (entryId path : String) (m : Message CloudEvent) (found : Finding CloudEvent) : Prop :=
  ∃ cloudEvent route, found = .routed cloudEvent route ∧ route.getD "" = path ∧ m = ⟨entryId, cloudEvent⟩

variable {p : Prepared CloudEvent} {i n : Nat} {entryId path : String} {found : Finding CloudEvent}
  {done : List (Entry Event)} {e : Entry Event} {ce : Option CloudEvent} {route : Option String} {s : Invoked}

@[simp] theorem bulkResponses_add :
    (p.add rawPayload i entryId found).bulkResponses = p.bulkResponses.set i (found.response entryId) := rfl

theorem mem_messages_add {m : Message CloudEvent} :
    m ∈ (p.add rawPayload i entryId found).messages path ↔ m ∈ p.messages path ∨ found.Delivers entryId path m := by
  cases found with
  | routed cloudEvent route =>
    by_cases hpath : path = route.getD ""
    · subst hpath
      simp [Prepared.messages, Prepared.add, Finding.Delivers]
    · simp [Prepared.messages, Prepared.add, Finding.Delivers, AList.lookup_insert_ne hpath, Ne.symm hpath]
  | blank | undecodable | expired | ruleFailed => simp [Prepared.messages, Prepared.add, Finding.Delivers]

/-- The handler's variables after the entries `done` of `n`. -/
structure Prepares (sub : Subscription Event CloudEvent) (rawPayload : Bool) (n : Nat) (done : List (Entry Event))
    (p : Prepared CloudEvent) : Prop where
  length : p.bulkResponses.length = n
  index : ∀ (i : Nat) e, done[i]? = some e → p.entryIdIndexMap.lookup e.entryId = some i
  entry : ∀ x i, p.entryIdIndexMap.lookup x = some i → ∃ e, done[i]? = some e ∧ e.entryId = x
  response : ∀ (i : Nat) e, done[i]? = some e →
    p.bulkResponses[i]? = some ((sub.examine rawPayload e).response e.entryId)
  messages : ∀ path m, m ∈ p.messages path ↔ ∃ e ∈ done, (sub.examine rawPayload e).Delivers e.entryId path m
  failed : p.hasAnyError = done.any fun e => (sub.examine rawPayload e).failed
  err : ∀ e err, done.getLast? = some e → sub.examine rawPayload e = .undecodable err → p.err ≠ none

theorem prepares_start (n : Nat) : Prepares sub rawPayload n [] (.start n) where
  length := length_replicate
  index := by simp
  entry := by simp [Prepared.start]
  response := by simp
  messages := by simp [Prepared.messages, Prepared.start]
  failed := rfl
  err := by simp

theorem getElem?_concat {α : Type} {l : List α} {a b : α} :
    (l ++ [a])[i]? = some b ↔ l[i]? = some b ∨ i = l.length ∧ b = a := by
  rcases Nat.lt_trichotomy i l.length with hi | rfl | hi
  · simp [getElem?_append_left hi, Nat.ne_of_lt hi]
  · simp [eq_comm]
  · have hnone : (l ++ [a])[i]? = none := by
      rw [List.getElem?_eq_none_iff, length_append]
      exact hi
    simp [hnone, List.getElem?_eq_none (Nat.le_of_lt hi), Nat.ne_of_gt hi]

theorem Prepares.add (h : Prepares sub rawPayload n done p) (hn : done.length < n) (hnamed : e.entryId ≠ "")
    (hnew : ∀ e' ∈ done, e'.entryId ≠ e.entryId) :
    Prepares sub rawPayload n (done ++ [e]) (p.add rawPayload done.length e.entryId (sub.examine rawPayload e)) where
  length := by simp [h.length]
  index i e' hi := by
    simp only [Prepared.add, hnamed, if_false]
    rcases getElem?_concat.1 hi with hi | ⟨rfl, rfl⟩
    · rw [AList.lookup_insert_ne (hnew e' (mem_of_getElem? hi)), h.index i e' hi]
    · rw [AList.lookup_insert]
  entry x i hx := by
    simp only [Prepared.add, hnamed, if_false] at hx
    by_cases heq : x = e.entryId
    · subst heq
      rw [AList.lookup_insert, Option.some_inj] at hx
      subst hx
      exact ⟨e, by simp, rfl⟩
    · rw [AList.lookup_insert_ne heq] at hx
      obtain ⟨e', hi, rfl⟩ := h.entry x i hx
      exact ⟨e', getElem?_concat.2 (.inl hi), rfl⟩
  response i e' hi := by
    rcases getElem?_concat.1 hi with hi | ⟨rfl, rfl⟩
    · have hlt : i < done.length := (List.getElem?_eq_some_iff.1 hi).1
      rw [bulkResponses_add, getElem?_set_ne (Nat.ne_of_gt hlt), h.response i e' hi]
    · rw [bulkResponses_add, getElem?_set_self (by rw [h.length]; exact hn)]
  messages path m := by simp [mem_messages_add, h.messages]
  failed := by simp [Prepared.add, h.failed]
  err e' err hlast hfound := by
    rw [getLast?_concat, Option.some_inj] at hlast
    subst hlast
    simp [Prepared.add, hfound]

theorem Prepares.prepare {es : List (Entry Event)} (h : Prepares sub rawPayload n done p)
    (hn : (done ++ es).length = n) (hnamed : ∀ e ∈ es, e.entryId ≠ "") (hnodup : ((done ++ es).map (·.entryId)).Nodup) :
    Prepares sub rawPayload n (done ++ es) (sub.prepare rawPayload done.length es p) := by
  induction es generalizing done p with
  | nil => simpa [Subscription.prepare] using h
  | cons e es ih =>
    have hsplit : done ++ e :: es = (done ++ [e]) ++ es := by simp
    have hnew : ∀ e' ∈ done, e'.entryId ≠ e.entryId := by
      intro e' he'
      rw [map_append, nodup_append] at hnodup
      exact hnodup.2.2 _ (mem_map_of_mem he') _ (by simp)
    have hadd := h.add (by rw [← hn]; simp) (hnamed e mem_cons_self) hnew
    rw [hsplit] at hn hnodup ⊢
    have hrest := ih hadd hn (fun e he => hnamed e (mem_cons_of_mem _ he)) hnodup
    rwa [length_append] at hrest

/-- All entries are gone through. -/
theorem prepares {entries : List (Entry Event)} (hnamed : ∀ e ∈ entries, e.entryId ≠ "")
    (hnodup : (entries.map (·.entryId)).Nodup) :
    Prepares sub rawPayload entries.length entries
      (sub.prepare rawPayload 0 entries (.start entries.length)) :=
  (prepares_start entries.length).prepare rfl hnamed hnodup

section Prepared
variable {entries : List (Entry Event)}

variable (h : Prepares sub rawPayload n entries p)
include h

theorem Prepares.injective : Injective p.entryIdIndexMap := by
  intro x y i hx hy
  obtain ⟨e, he, rfl⟩ := h.entry x i hx
  obtain ⟨e', he', rfl⟩ := h.entry y i hy
  rw [he, Option.some_inj] at he'
  rw [he']

theorem Prepares.responseOf (he : e ∈ entries) :
    responseOf p.entryIdIndexMap p.bulkResponses e.entryId = some ((sub.examine rawPayload e).response e.entryId) := by
  obtain ⟨i, hi⟩ := getElem?_of_mem he
  rw [BulkSubscription.responseOf, h.index i e hi, Option.bind_some, h.response i e hi]

theorem Prepares.delivers (hnodup : (entries.map (·.entryId)).Nodup)
    (he : e ∈ entries) (hx : e.entryId ∈ (p.messages path).map (·.entryId)) :
    (sub.examine rawPayload e).path = some path := by
  obtain ⟨m, hm, hid⟩ := mem_map.1 hx
  obtain ⟨e', he', ce, route, hfound, hpath, rfl⟩ := (h.messages path m).1 hm
  have heq : e' = e := inj_on_of_nodup_map hnodup he' he hid
  subst heq
  rw [hfound, Finding.path, hpath]

theorem Prepares.not_mem (hnodup : (entries.map (·.entryId)).Nodup)
    (he : e ∈ entries) (hpath : (sub.examine rawPayload e).path ≠ some path) :
    e.entryId ∉ (p.messages path).map (·.entryId) :=
  fun hx => hpath (h.delivers hnodup he hx)

theorem Prepares.mem (he : e ∈ entries)
    (hpath : (sub.examine rawPayload e).path = some path) : e.entryId ∈ (p.messages path).map (·.entryId) := by
  cases hfound : sub.examine rawPayload e with
  | routed ce route =>
    rw [hfound, Finding.path, Option.some_inj] at hpath
    exact mem_map.2 ⟨_, (h.messages path _).2 ⟨e, he, ce, route, hfound, hpath, rfl⟩, rfl⟩
  | blank | undecodable | expired | ruleFailed => rw [hfound] at hpath; cases hpath

theorem Prepares.mem_keys (he : e ∈ entries)
    (hpath : (sub.examine rawPayload e).path = some path) : path ∈ p.routePathBulkMessageMap.keys := by
  have hmem := h.mem he hpath
  by_contra hkey
  rw [Prepared.messages, AList.lookup_eq_none.2 hkey] at hmem
  cases hmem

end Prepared

/-! ## The handler -/

theorem examine_ne_blank (h : e.entryId ≠ "") : sub.examine rawPayload e ≠ .blank := by
  intro hblank
  unfold Subscription.examine at hblank
  split at hblank
  · contradiction
  · split at hblank
    · split at hblank <;> cases hblank
    · split at hblank
      · cases hblank
      · split at hblank
        · cases hblank
        · split at hblank <;> cases hblank

/-- The paths as the handler goes through them. -/
def Subscription.order (sub : Subscription Event CloudEvent) (w : World) (rawPayload : Bool) (entries : List (Entry Event)) :
    List String :=
  w.order (sub.prepare rawPayload 0 entries (.start entries.length)).routePathBulkMessageMap.keys

/-- Every entry is heard:
- none has a blank id,
- every message can be built that an application is called with,
- an entry that cannot be decoded or routed leaves its error in `err`, being the last one, or goes to the dead-letter
  topic,
- on the path of every route the first attempt that comes back has called the application, or on the first path that the
  handler goes through no attempt comes back, so that all have its error. -/
structure Heard (sub : Subscription Event CloudEvent) (w : World) (rawPayload : Bool) (entries : List (Entry Event)) :
    Prop where
  named : ∀ e ∈ entries, e.entryId ≠ ""
  encodes : ∀ e ∈ entries, ∀ ce route, sub.examine rawPayload e = .routed ce route →
    (w.run (route.getD "")).attempts.any (·.isCalled) = true → fetchEntry sub rawPayload ⟨e.entryId, ce⟩ = none
  early : (∀ e ∈ entries, (sub.examine rawPayload e).failed = false) ∨ sub.deadLettered w = true ∨
    ∃ e err, entries.getLast? = some e ∧ sub.examine rawPayload e = .undecodable err
  paths : ∀ e ∈ entries, ∀ ce path, sub.examine rawPayload e = .routed ce (some path) →
    heard (w.run path).attempts = true ∨
      ∀ first ∈ (sub.order w rawPayload entries).head?, silent (w.run first).attempts = true

section Handler
variable {w : World} {entries : List (Entry Event)}

section
variable (h : Heard sub w rawPayload entries) (hp : Prepares sub rawPayload n entries p)
include h hp

theorem Heard.fetchEntry (path : String) (hcalled : (w.run path).attempts.any (·.isCalled) = true) :
    ∀ m ∈ p.messages path, fetchEntry sub rawPayload m = none := by
  intro m hm
  obtain ⟨e, he, ce, route, hfound, rfl, rfl⟩ := (hp.messages path m).1 hm
  exact h.encodes e he ce route hfound hcalled

/-- After the deliveries the entry has a response, which says success only if the entry was processed; and it was if
there was no error at all. -/
def Invoked.Responds (sub : Subscription Event CloudEvent) (rawPayload : Bool) (p : Prepared CloudEvent) (e : Entry Event)
    (s : Invoked) : Prop :=
  Accounted p.entryIdIndexMap ((sub.examine rawPayload e).ignored = true) e.entryId s.bulkResponses s.log ∧
    (p.hasAnyError = false → s.overallInvokeErr = none →
      Settled s.log e.entryId ∨ (sub.examine rawPayload e).ignored = true)

/-- An entry that is not delivered, or need not be. -/
theorem Heard.responds_unrouted (he : e ∈ entries) (err : Option Err)
    (hr : (sub.examine rawPayload e).response e.entryId = (e.entryId, err))
    (hdone : (sub.examine rawPayload e).ignored = true ∨ err ≠ none ∧ (sub.examine rawPayload e).failed = true)
    (paths : List String) : (invoke sub w rawPayload p paths p.uninvoked).Responds sub rawPayload p e := by
  constructor
  · refine invoke_accounted hp.injective (h.named e he) (h.fetchEntry hp) ⟨err, ?_, fun hnone => ?_⟩
    · exact (hp.responseOf he).trans (congrArg some hr)
    · exact .inr (hdone.resolve_right fun hfailed => hfailed.1 hnone)
  · intro hok _
    refine .inr (hdone.resolve_right fun hfailed => ?_)
    rw [hp.failed, any_eq_false] at hok
    exact hok e he hfailed.2

theorem Heard.responds_heard (hnodup : (entries.map (·.entryId)).Nodup) (he : e ∈ entries)
    (hpath : (sub.examine rawPayload e).path = some path) (hheard : heard (w.run path).attempts = true) :
    (invoke sub w rawPayload p (w.order p.routePathBulkMessageMap.keys) p.uninvoked).Responds sub rawPayload p e := by
  have hother : ∀ path', path' ≠ path → e.entryId ∉ (p.messages path').map (·.entryId) := by
    intro path' hne
    refine hp.not_mem hnodup he fun heq => hne ?_
    rw [hpath, Option.some_inj] at heq
    exact heq.symm
  have hsome : (responseOf p.entryIdIndexMap p.uninvoked.bulkResponses e.entryId).isSome := by
    rw [Prepared.uninvoked, hp.responseOf he]
    rfl
  have hkey := (w.order_perm p.routePathBulkMessageMap.keys).mem_iff.2 (hp.mem_keys he hpath)
  obtain ⟨haccounted, hok⟩ := invoke_heard hp.injective (h.named e he) hkey hheard (h.fetchEntry hp) (hp.mem he hpath)
    hother hsome
  exact ⟨haccounted, fun _ => hok⟩

/-- The error of the first delivery goes to the entries of every path. -/
theorem Heard.responds_silent (he : e ∈ entries) (hfound : sub.examine rawPayload e = .routed ce (some path))
    {first : String} {paths : List String} (hsilent : silent (w.run first).attempts = true) :
    (invoke sub w rawPayload p (first :: paths) p.uninvoked).Responds sub rawPayload p e := by
  have hinit := hp.responseOf he
  rw [hfound] at hinit
  obtain ⟨⟨err, hr⟩, herr⟩ :
      (∃ err, responseOf _ (invokePath sub w rawPayload p first p.uninvoked).bulkResponses e.entryId =
        some (e.entryId, some err)) ∧ _ := resiliency_silent rfl hp.injective (h.named e he) hsilent hinit
  rw [invoke]
  refine ⟨invoke_accounted hp.injective (h.named e he) (h.fetchEntry hp) ⟨some err, hr, by simp⟩, fun _ hnone => ?_⟩
  have hoverall : (invokePath sub w rawPayload p first p.uninvoked).overallInvokeErr = none := invoke_overall hnone
  exact absurd (Option.or_eq_none_iff.1 hoverall).1 herr

theorem Heard.responds (horder : sub.order w rawPayload entries = w.order p.routePathBulkMessageMap.keys)
    (hnodup : (entries.map (·.entryId)).Nodup) (he : e ∈ entries) :
    (invoke sub w rawPayload p (w.order p.routePathBulkMessageMap.keys) p.uninvoked).Responds sub rawPayload p e := by
  have hunrouted := h.responds_unrouted hp he
  cases hfound : sub.examine rawPayload e with
  | blank => exact absurd hfound (examine_ne_blank (h.named e he))
  | routed ce route =>
    cases route with
    | none => exact hunrouted none (by rw [hfound]; rfl) (.inl (by rw [hfound]; rfl)) _
    | some path =>
      have hpath : (sub.examine rawPayload e).path = some path := by rw [hfound]; rfl
      rcases h.paths e he ce path hfound with hheard | hsilent
      · exact h.responds_heard hp hnodup he hpath hheard
      · have hkey := (w.order_perm p.routePathBulkMessageMap.keys).mem_iff.2 (hp.mem_keys he hpath)
        rw [horder] at hsilent
        cases hpaths : w.order p.routePathBulkMessageMap.keys with
        | nil => rw [hpaths] at hkey; cases hkey
        | cons first paths => exact h.responds_silent hp he hfound (hsilent first (by rw [hpaths]; rfl))
  | undecodable err | ruleFailed err =>
    exact hunrouted (some err) (by rw [hfound]; rfl) (.inr ⟨nofun, by rw [hfound]; rfl⟩) _
  | expired => exact hunrouted none (by rw [hfound]; rfl) (.inl (by rw [hfound]; rfl)) _

end

theorem mem_deadLetters (he : e ∈ entries) (hi : p.entryIdIndexMap.lookup e.entryId = some i) {err : Err}
    (hr : responseOf p.entryIdIndexMap R e.entryId = some (e.entryId, some err)) :
    e.entryId ∈ deadLetters entries p.entryIdIndexMap R := by
  refine mem_map_of_mem (mem_filter.2 ⟨he, ?_⟩)
  rw [responseOf, hi, Option.bind_some] at hr
  rw [hi, Option.getD_some, hr]
  rfl

theorem processed_of_settled (hraw : sub.isRawPayload = .ok rawPayload)
    (h : Settled s.log e.entryId ∨ (sub.examine rawPayload e).ignored = true) : Processed sub s.log e := by
  refine h.imp_right fun hignored => ?_
  rw [Subscription.ignores, hraw]
  exact hignored

theorem processed_of_response (hp : Prepares sub rawPayload entries.length entries p)
    (hlen : s.bulkResponses.length = entries.length) (hnodup : (entries.map (·.entryId)).Nodup)
    (hraw : sub.isRawPayload = .ok rawPayload) (hresponds : ∀ e ∈ entries, s.Responds sub rawPayload p e)
    (he : e ∈ entries) (hmem : (e.entryId, none) ∈ s.bulkResponses) : Processed sub s.log e := by
  obtain ⟨i, hi⟩ := getElem?_of_mem hmem
  obtain ⟨e', hi'⟩ : ∃ e', entries[i]? = some e' := by
    have hlt : i < entries.length := hlen ▸ (List.getElem?_eq_some_iff.1 hi).1
    exact ⟨_, List.getElem?_eq_getElem hlt⟩
  obtain ⟨⟨err, hr, hok⟩, -⟩ := hresponds e' (mem_of_getElem? hi')
  rw [responseOf, hp.index i e' hi', Option.bind_some, hi, Option.some_inj, Prod.mk.injEq] at hr
  have heq : e = e' := inj_on_of_nodup_map hnodup he (mem_of_getElem? hi') hr.1
  subst heq
  exact processed_of_settled hraw (hok hr.2.symm)

theorem processed_of_report (h : Heard sub w rawPayload entries)
    (hp : Prepares sub rawPayload entries.length entries p) (hnodup : (entries.map (·.entryId)).Nodup)
    (hraw : sub.isRawPayload = .ok rawPayload) (hlen : s.bulkResponses.length = entries.length)
    (hresponds : ∀ e ∈ entries, s.Responds sub rawPayload p e)
    (herr : p.err ≠ none ∨ s.overallInvokeErr ≠ none → s.err ≠ none) (he : e ∈ entries)
    (hreport : (report sub w entries p s).1.Reports e.entryId) : Processed sub (report sub w entries p s).2 e := by
  have hresponse := processed_of_response hp hlen hnodup hraw hresponds he
  obtain ⟨⟨err, hr, hok⟩, hclean⟩ := hresponds e he
  -- with an error, the responses decide
  have hresponses : ∀ {err : Option Err}, err ≠ none → Outcome.Reports ⟨some s.bulkResponses, err⟩ e.entryId →
      Processed sub s.log e := by
    rintro err herr (hnone | ⟨responses, hsome, hmem⟩)
    · exact absurd hnone herr
    · cases hsome
      exact hresponse hmem
  unfold report at hreport ⊢
  split at hreport
  · rename_i hcanceled
    rw [if_pos hcanceled]
    exact hresponses (by rw [hcanceled]; exact Option.some_ne_none _) hreport
  · rename_i hcanceled
    rw [if_neg hcanceled]
    split at hreport
    · rename_i hany
      rw [if_pos hany]
      split at hreport
      · -- what failed is published
        rename_i hdead
        rw [if_pos hdead]
        obtain ⟨i, hi⟩ := getElem?_of_mem he
        cases err with
        | none => exact (processed_of_settled hraw (hok rfl)).mono (subset_append_left _ _)
        | some err =>
          exact .inl (settled_concat (decide_eq_true (mem_deadLetters he (hp.index i e hi) hr)))
      · rename_i hdead
        rw [if_neg hdead]
        refine hresponses (herr ?_) hreport
        rcases h.early with hnone | hdead' | ⟨last, err, hlast, hfound⟩
        · have hfailed : p.hasAnyError = false := by
            rw [hp.failed, any_eq_false]
            exact fun e he => by simp [hnone e he]
          rw [hfailed] at hany
          exact .inr (Option.isSome_iff_ne_none.1 hany)
        · exact absurd hdead' hdead
        · exact .inl (hp.err last err hlast hfound)
    · rename_i hany
      rw [if_neg hany]
      simp only [Bool.or_eq_true, not_or, Bool.not_eq_true, Option.isSome_eq_false_iff, Option.isNone_iff_eq_none] at hany
      exact processed_of_settled hraw (hclean hany.1 hany.2)

/-- If all are heard, the handler reports an entry as successful only if it was processed. -/
theorem processed_of_reported (sub : Subscription Event CloudEvent) (w : World) (entries : List (Entry Event))
    (hdistinct : (entries.map (·.entryId)).Nodup)
    (hheard : ∀ rawPayload, sub.isRawPayload = .ok rawPayload → Heard sub w rawPayload entries)
    (e : Entry Event) (he : e ∈ entries) (hreport : (bulkHandler sub w entries).1.Reports e.entryId) :
    Processed sub (bulkHandler sub w entries).2 e := by
  cases hraw : sub.isRawPayload with
  | error err =>
    simp only [bulkHandler, hraw] at hreport ⊢
    split at hreport
    · rename_i hdead
      rw [if_pos hdead]
      exact .inl ⟨_, mem_cons_self, decide_eq_true (mem_map_of_mem he)⟩
    · rcases hreport with hnone | ⟨responses, hsome, hmem⟩
      · cases hnone
      · cases hsome
        simp at hmem
  | ok rawPayload =>
    have h := hheard rawPayload hraw
    have hp : Prepares sub rawPayload _ entries _ := prepares h.named hdistinct
    simp only [bulkHandler, hraw] at hreport ⊢
    refine processed_of_report h hp hdistinct hraw ?_ (fun e he => h.responds hp rfl hdistinct he) ?_ he hreport
    · exact length_invoke.trans hp.length
    · rintro (herr | hoverall)
      · exact invoke_err herr
      · exact invoke_err_of_overall (fun hnone => absurd rfl hnone) hoverall

end Handler

/-! ## Orders and refunds

Events are numbers: 0 is not JSON, 1 goes to the route of orders and the others to that of refunds. No dead-letter topic
is configured. -/

def orders : Subscription Nat Nat where
  isRawPayload := .ok false
  unmarshal event := if event = 0 then .error (.outside "unexpected end of JSON input") else .ok event
  hasExpired _ := false
  rules := [⟨some fun elem => .ok (some (elem = .inr 1)), "/orders"⟩, ⟨none, "/refunds"⟩]
  deadLetterTopic := ""
  extractCloudEvent _ := none

/-- The application answers success for the orders and asks for a retry of the refunds, once. -/
def answering : World where
  run path := if path = "/orders" then ⟨.called (.statuses [("b", .success)]) (.error none), [], none⟩
    else ⟨.called (.statuses [("c", .retry)]) (.error none), [.called (.statuses [("c", .success)]) (.error none)], none⟩
  order paths := paths
  order_perm _ := Perm.refl _
  publishes := false

theorem order_and_refund_are_processed :
    Processed orders (bulkHandler orders answering [⟨"b", 1⟩, ⟨"c", 2⟩]).2 ⟨"b", 1⟩ ∧
      Processed orders (bulkHandler orders answering [⟨"b", 1⟩, ⟨"c", 2⟩]).2 ⟨"c", 2⟩ := by
  have hheard : ∀ rawPayload, orders.isRawPayload = .ok rawPayload →
      Heard orders answering rawPayload [⟨"b", 1⟩, ⟨"c", 2⟩] := by
    rintro _ ⟨⟩
    refine ⟨by decide, fun _ _ _ _ _ _ => rfl, .inl (by decide), ?_⟩
    intro e he ce path hfound
    left
    rcases mem_pair.1 he with rfl | rfl
    · cases hfound
      decide
    · cases hfound
      decide
  have hreport : ∀ x, (bulkHandler orders answering [⟨"b", 1⟩, ⟨"c", 2⟩]).1.Reports x := fun x => .inl rfl
  exact ⟨processed_of_reported orders answering _ (by decide) hheard ⟨"b", 1⟩ (by decide) (hreport _),
    processed_of_reported orders answering _ (by decide) hheard ⟨"c", 2⟩ (by decide) (hreport _)⟩

/-- The second entry is decoded, which clears the error of the first one. -/
theorem undecodable_is_reported :
    (([⟨"a", 0⟩, ⟨"b", 1⟩] : List (Entry Nat)).map (·.entryId)).Nodup ∧
      (bulkHandler orders answering [⟨"a", 0⟩, ⟨"b", 1⟩]).1.Reports "a" ∧
      ¬ Processed orders (bulkHandler orders answering [⟨"a", 0⟩, ⟨"b", 1⟩]).2 ⟨"a", 0⟩ :=
  ⟨by decide, .inl rfl, by decide⟩

-- Orders are delivered first, which clears the responses of refunds; the call with those times out.
example :
    let w : World := { answering with
      run := fun path => if path = "/orders" then answering.run path else ⟨.timedOut .deadlineExceeded, [], none⟩
      order := List.reverse
      order_perm := reverse_perm }
    (bulkHandler orders w [⟨"b", 1⟩, ⟨"c", 2⟩]).1.Reports "c" ∧
      ¬ Processed orders (bulkHandler orders w [⟨"b", 1⟩, ⟨"c", 2⟩]).2 ⟨"c", 2⟩ :=
  ⟨.inr ⟨_, rfl, by decide⟩, by decide⟩

end Dapr.BulkSubscription
