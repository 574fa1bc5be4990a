import Dapr.Lib.Totals
import Dapr.SchedulerApi.Serialize
/-!
# Whose job a key is

A job is an app's or an actor's, and has a name. Its key joins these with `||`, which they may
contain themselves. So a key may be read in several ways, and a request for one actor may reach the
job of another; exactly when shifts of `|` over the boundaries of the fields lead from one to the
other. Fields without `|` are never confused.
-/

namespace Dapr.SchedulerApi

open Lib.Joined Lib.Totals List

/-- Whose a job is. -/
inductive Owner where
  | app (ns appId : String)
  | actor (ns actorType id : String)
  deriving DecidableEq, Repr

def JobMetadata.owner (md : JobMetadata) : Option Owner :=
  match md.target with
  | .actor actorType id => some (.actor md.ns actorType id)
  | .job => some (.app md.ns md.appId)
  | .unset => none

namespace Owner

def fields : Owner → List String
  | .app ns appId => ["app", ns, appId]
  | .actor ns actorType id => ["actorreminder", ns, actorType, id]

/-- One app or one actor; without an id the metadata mean all actors of the type. -/
def Single : Owner → Prop
  | .app _ _ => True
  | .actor _ _ id => id ≠ ""

/-- The fields of a job's key. -/
def texts (o : Owner) (name : String) : List (List Char) := (o.fields ++ [name]).map String.toList

/-- A job of the other one has fields that become, by shifts, those of a job of this one. -/
def Confused (o o' : Owner) (name' : String) : Prop := o ≠ o' ∧ ∃ name, Regrouped '|' (o.texts name) (o'.texts name')

variable {o o' : Owner} {name name' : String}

theorem fields_ne_nil : o.fields ≠ [] := by cases o <;> exact cons_ne_nil _ _

theorem fields_inj (h : o.fields = o'.fields) : o = o' := by
  cases o <;> cases o' <;> simp_all [fields]

end Owner

/-! ## Keys -/

variable {o o' : Owner} {name name' key : String} {md : JobMetadata} {caller : Caller}

theorem toList_joinStrings (ss : List String) : (joinStrings ss).toList = ['|', '|'].intercalate (ss.map String.toList) := by
  rw [joinStrings, String.toList_intercalate]
  rfl

theorem toList_joinStrings_concat :
    (joinStrings (o.fields ++ [name])).toList = (joinStrings o.fields ++ "||").toList ++ name.toList := by
  rw [toList_joinStrings, String.toList_append, toList_joinStrings, map_append, map_singleton,
    intercalate_concat (by simpa using Owner.fields_ne_nil)]
  rfl

theorem buildJobName_eq (ho : md.owner = some o) : buildJobName name md = .ok (joinStrings (o.fields ++ [name])) := by
  obtain ⟨appId, ns, target⟩ := md
  cases target <;> cases ho <;> rfl

theorem owner_of_buildJobName (h : buildJobName name md = .ok key) :
    ∃ o, md.owner = some o ∧ key = joinStrings (o.fields ++ [name]) := by
  obtain ⟨appId, ns, target⟩ := md
  cases target with
  | actor actorType id =>
    cases h
    exact ⟨.actor ns actorType id, rfl, rfl⟩
  | job =>
    cases h
    exact ⟨.app ns appId, rfl, rfl⟩
  | unset => cases h

theorem prefixFromMetadata_eq (ho : md.owner = some o) : prefixFromMetadata md = .ok (joinStrings o.fields ++ "||") := by
  obtain ⟨appId, ns, target⟩ := md
  cases target <;> cases ho <;> rfl

theorem keyFromMetadata_eq (hauthz : authzMetadata caller md = .ok ()) (ho : md.owner = some o) (hsingle : o.Single) :
    keyFromMetadata caller md false = .ok (joinStrings o.fields ++ "||") := by
  obtain ⟨appId, ns, target⟩ := md
  unfold keyFromMetadata
  rw [hauthz]
  cases target with
  | actor actorType id =>
    cases ho
    have hlength : id.length > 0 := Nat.pos_of_ne_zero fun h => hsingle (String.length_eq_zero_iff.1 h)
    have hfields : joinStrings ["actorreminder", ns, actorType] ++ "||" ++ id =
        joinStrings ["actorreminder", ns, actorType, id] := by simp [joinStrings, String.append_assoc]
    change (if id.length > 0 then _ else _) = _
    rw [if_pos hlength]
    exact congrArg (fun str => Except.ok (str ++ "||")) hfields
  | job =>
    cases ho
    rfl
  | unset => cases ho

/-- Keys of different kinds differ in their second character. -/
theorem joinStrings_app_ne {ns appId ns' actorType id : String} :
    joinStrings ((Owner.app ns appId).fields ++ [name]) ≠ joinStrings ((Owner.actor ns' actorType id).fields ++ [name']) := by
  intro h
  have hsecond := congrArg (fun s : String => s.toList[1]?) h
  simp [toList_joinStrings, Owner.fields] at hsecond

/-- Two jobs have the same key exactly when shifts lead from the fields of one to those of the other. -/
theorem joinStrings_eq_iff : joinStrings (o.fields ++ [name]) = joinStrings (o'.fields ++ [name']) ↔
    Regrouped '|' (o.texts name) (o'.texts name') := by
  have htext : (o.texts name).length = (o'.texts name').length →
      (joinStrings (o.fields ++ [name]) = joinStrings (o'.fields ++ [name']) ↔
        Regrouped '|' (o.texts name) (o'.texts name')) := by
    intro hlength
    rw [← String.toList_inj, toList_joinStrings, toList_joinStrings]
    exact text_eq_iff hlength
  cases o <;> cases o'
  · exact htext rfl
  · exact iff_of_false joinStrings_app_ne fun h => absurd h.length_eq (by simp [Owner.texts, Owner.fields])
  · exact iff_of_false joinStrings_app_ne.symm fun h => absurd h.length_eq (by simp [Owner.texts, Owner.fields])
  · exact htext rfl

theorem hasPrefix_iff {s start : String} : hasPrefix s start = true ↔ ∃ rest : String, s = start ++ rest := by
  rw [hasPrefix, isPrefixOf_iff_prefix]
  constructor
  · rintro ⟨rest, h⟩
    refine ⟨String.ofList rest, String.toList_inj.1 ?_⟩
    rw [String.toList_append, String.toList_ofList, h]
  · rintro ⟨rest, rfl⟩
    exact ⟨rest.toList, String.toList_append.symm⟩

theorem joinStrings_concat : joinStrings (o.fields ++ [name]) = joinStrings o.fields ++ "||" ++ name := by
  rw [← String.toList_inj, toList_joinStrings_concat, ← String.toList_append]

/-- A key begins with the key of an owner exactly when it can be read as the key of a job of that owner. -/
theorem hasPrefix_joinStrings_iff : hasPrefix (joinStrings (o'.fields ++ [name'])) (joinStrings o.fields ++ "||") = true ↔
    ∃ name, Regrouped '|' (o.texts name) (o'.texts name') := by
  rw [hasPrefix_iff]
  constructor
  · rintro ⟨rest, h⟩
    exact ⟨rest, joinStrings_eq_iff.1 (by rw [joinStrings_concat, h])⟩
  · rintro ⟨name, h⟩
    exact ⟨name, by rw [← joinStrings_eq_iff.2 h, joinStrings_concat]⟩

/-- A request reaches a job of its own, and otherwise only what is confused with it. -/
theorem hasPrefix_eq_own_iff :
    ((hasPrefix (joinStrings (o'.fields ++ [name'])) (joinStrings o.fields ++ "||") = true) ↔ o' = o) ↔
      ¬ o.Confused o' name' := by
  rw [hasPrefix_joinStrings_iff]
  constructor
  · rintro h ⟨hne, hread⟩
    exact hne (h.1 hread).symm
  · intro h
    refine ⟨fun hread => Classical.byContradiction fun hne => h ⟨Ne.symm hne, hread⟩, ?_⟩
    rintro rfl
    exact ⟨name', .refl⟩

/-- Fields without the symbol of the separator are never confused. -/
theorem not_confused (h : ∀ f ∈ o'.texts name', '|' ∉ f) : ¬ o.Confused o' name' := by
  rintro ⟨hne, name, hread⟩
  have heq := eq_of_regrouped hread.symm h
  have hfields : o.fields ++ [name] = o'.fields ++ [name'] :=
    map_injective_iff.2 (fun _ _ => String.toList_injective) heq
  exact hne (Owner.fields_inj (append_inj_left' hfields rfl))

/-! ## What is stored -/

section Stored
variable {σ J : Type} {c : Cron σ J} {s s' : σ} {e : Entry J}

/-- Each job is stored under the key of its own metadata and some name. -/
def Cron.Keyed (c : Cron σ J) (s : σ) : Prop :=
  ∀ key e, c.get s key = some e → ∃ name, buildJobName name e.metadata = .ok key

theorem ok_of_bind {α β : Type} {x : Except Error α} {f : α → Except Error β} {b : β} (h : x >>= f = .ok b) :
    ∃ a, x = .ok a ∧ f a = .ok b := by
  cases x with
  | error err => cases h
  | ok a => exact ⟨a, rfl, h⟩

/-- What is stored after a request was stored before, or is the job that was scheduled. -/
theorem keyed_serve (hc : c.Lawful) (h : c.Keyed s) {change : Change J} (hs : serve c s caller change = .ok s') :
    c.Keyed s' := by
  intro key e he
  cases change with
  | scheduleJob name md overwrite job =>
    obtain ⟨key', hkey, hs⟩ := ok_of_bind hs
    split at hs
    · cases hs
      rw [hc.get_add] at he
      split at he
      · next heq =>
        cases he
        exact ⟨name, heq ▸ buildJobName_of_fromRequest hkey⟩
      · exact h key e he
    · cases hs
  | deleteJob name md =>
    obtain ⟨key', -, hs⟩ := ok_of_bind hs
    cases hs
    rw [hc.get_delete, Option.ite_none_left_eq_some] at he
    exact h key e he.2
  | deleteByMetadata | deleteByNamePrefix =>
    obtain ⟨start, -, hs⟩ := ok_of_bind hs
    cases hs
    rw [hc.get_deletePrefixes, Option.ite_none_left_eq_some] at he
    exact h key e he.2

/-- A job that was scheduled is found, and is not once it was deleted. -/
theorem getJob_spec (hc : c.Lawful) (hkey : fromRequest caller ⟨name, md, false⟩ = .ok key) (s : σ) (job : J) :
    (∃ s', scheduleJob c s caller name md true job = .ok s' ∧ getJob c s' caller name md = .ok job) ∧
      ∃ s', deleteJob c s caller name md = .ok s' ∧
        getJob c s' caller name md = .error ⟨.notFound, "job not found: " ++ name⟩ := by
  refine ⟨⟨c.add s key ⟨md, job⟩, ?_, ?_⟩, c.delete s key, ?_, ?_⟩
  · simp [scheduleJob, hkey, bind, Except.bind]
  · simp [getJob, hkey, bind, Except.bind, hc.get_add]
  · simp [deleteJob, hkey, bind, Except.bind]
  · simp [getJob, hkey, bind, Except.bind, hc.get_delete]

/-- A stored job is listed under its own name. -/
theorem namedJob_eq (hname : buildJobName name e.metadata = .ok key) : namedJob ⟨key, e⟩ = .ok ⟨name, e.metadata, e.job⟩ := by
  obtain ⟨o, ho, rfl⟩ := owner_of_buildJobName hname
  have hstart : hasPrefix (joinStrings (o.fields ++ [name])) (joinStrings o.fields ++ "||") = true :=
    hasPrefix_iff.2 ⟨name, joinStrings_concat⟩
  have hrest : (joinStrings (o.fields ++ [name])).toList.drop (joinStrings o.fields ++ "||").toList.length = name.toList := by
    rw [toList_joinStrings_concat, drop_left]
  simp only [namedJob, prefixFromMetadata_eq ho, bind, Except.bind, hstart, if_true, hrest, String.ofList_toList]

/-- What is listed are the jobs whose keys begin as the metadata say. -/
theorem listJobs_spec (hc : c.Lawful) (hk : c.Keyed s) {start : String} (hstart : keyFromMetadata caller md false = .ok start)
    (he : c.get s key = some e) (hname : buildJobName name e.metadata = .ok key) :
    ∃ jobs, listJobs c s caller md = .ok jobs ∧ (⟨name, e.metadata, e.job⟩ ∈ jobs ↔ hasPrefix key start = true) := by
  let named e' := (namedJob e').toOption.getD ⟨name, e.metadata, e.job⟩
  have hnamed : ∀ e' ∈ c.list s start, namedJob e' = .ok (named e') := by
    intro e' he'
    obtain ⟨name', hname'⟩ := hk e'.1 e'.2 ((hc.mem_list s start e').1 he').1
    simp [named, namedJob_eq hname', Except.toOption]
  have hjobs : (c.list s start).mapM namedJob = .ok ((c.list s start).map named) := by
    rw [mapM_ok_iff, List.forall₂_map_right_iff, List.forall₂_same]
    exact hnamed
  refine ⟨_, by rw [listJobs, hstart]; exact hjobs, mem_map.trans ⟨?_, fun hpre => ?_⟩⟩
  · rintro ⟨⟨key', e'⟩, hmem, heq⟩
    obtain ⟨hget, hpre⟩ := (hc.mem_list s start _).1 hmem
    obtain ⟨name', hname'⟩ := hk key' e' hget
    have hlisted := hnamed _ hmem
    rw [namedJob_eq hname', heq] at hlisted
    obtain ⟨rfl, hmd, -⟩ := NamedJob.mk.inj (Except.ok.inj hlisted)
    rw [hmd, hname] at hname'
    rw [Except.ok.inj hname']
    exact hpre
  · have hmem := (hc.mem_list s start ⟨key, e⟩).2 ⟨he, hpre⟩
    exact ⟨⟨key, e⟩, hmem, Except.ok.inj ((hnamed _ hmem).symm.trans (namedJob_eq hname))⟩

theorem deleteByMetadata_spec (hc : c.Lawful) {start : String} (hstart : keyFromMetadata caller md false = .ok start)
    (he : c.get s key = some e) :
    ∃ s', deleteByMetadata c s caller md none = .ok s' ∧ (c.get s' key = none ↔ hasPrefix key start = true) := by
  refine ⟨c.deletePrefixes s [start], by rw [deleteByMetadata, Option.getD_none, hstart]; rfl, ?_⟩
  rw [hc.get_deletePrefixes, he, any_cons, any_nil, Bool.or_false]
  cases hasPrefix key start <;> simp

end Stored

/-- Different jobs have different keys, and listing or deleting with the metadata of one app or one actor reaches a
stored job exactly when it is its own; exactly when the jobs are not confused with each other. -/
theorem jobs_isolated_iff {caller₁ caller₂ : Caller} {r₁ r₂ : Request} {key₁ key₂ : String} {o₁ o₂ : Owner}
    (h₁ : fromRequest caller₁ r₁ = .ok key₁) (h₂ : fromRequest caller₂ r₂ = .ok key₂)
    (ho₁ : r₁.metadata.owner = some o₁) (ho₂ : r₂.metadata.owner = some o₂) :
    (((o₁, r₁.name) ≠ (o₂, r₂.name) → key₁ ≠ key₂) ↔
      ¬ ((o₁, r₁.name) ≠ (o₂, r₂.name) ∧ Regrouped '|' (o₁.texts r₁.name) (o₂.texts r₂.name))) ∧
    ∀ (σ J : Type) (c : Cron σ J) (s : σ) (job : J), c.Lawful → c.Keyed s → c.get s key₂ = some ⟨r₂.metadata, job⟩ →
      authzMetadata caller₁ r₁.metadata = .ok () → o₁.Single →
      ∃ jobs s', listJobs c s caller₁ r₁.metadata = .ok jobs ∧ deleteByMetadata c s caller₁ r₁.metadata none = .ok s' ∧
        (((⟨r₂.name, r₂.metadata, job⟩ ∈ jobs ↔ o₂ = o₁) ∧ (c.get s' key₂ = none ↔ o₂ = o₁)) ↔
          ¬ o₁.Confused o₂ r₂.name) := by
  have hname := buildJobName_of_fromRequest h₂
  have hkey₁ := buildJobName_of_fromRequest h₁
  have hkey₂ := hname
  rw [buildJobName_eq ho₁] at hkey₁
  rw [buildJobName_eq ho₂] at hkey₂
  cases hkey₁
  cases hkey₂
  constructor
  · rw [Ne, Ne, joinStrings_eq_iff, not_and]
  · intro σ J c s job hc hk he hauthz hsingle
    have hstart := keyFromMetadata_eq hauthz ho₁ hsingle
    obtain ⟨jobs, hjobs, hlisted⟩ := listJobs_spec hc hk hstart he hname
    obtain ⟨s', hs', hdeleted⟩ := deleteByMetadata_spec hc hstart he
    refine ⟨jobs, s', hjobs, hs', ?_⟩
    rw [hlisted, hdeleted, and_self, hasPrefix_eq_own_iff]

/-- A cron that keeps its jobs in a map. -/
def mapCron (J : Type) : Cron (AList fun _ : String => Entry J) J where
  get s key := s.lookup key
  add s key e := s.insert key e
  delete s key := s.erase key
  list s start := s.entries.filter fun e => hasPrefix e.1 start
  deletePrefixes s starts := keep (fun key => !starts.any (hasPrefix key)) s

theorem mapCron_lawful (J : Type) : (mapCron J).Lawful where
  get_add s key e key' := by
    by_cases h : key' = key
    · subst h
      simp [mapCron]
    · simp [mapCron, h]
  get_delete s key key' := by
    by_cases h : key' = key
    · subst h
      simp [mapCron]
    · simp [mapCron, h]
  mem_list s start e := mem_filter.trans (and_congr_left' AList.mem_lookup_iff.symm)
  get_deletePrefixes s starts key := by
    refine lookup_keep.trans ?_
    cases starts.any (hasPrefix key) <;> rfl

/-- The reminders of two actors, as they are scheduled: their keys differ, and what is done with the metadata of the
first does not reach the second's. -/
theorem jobs_isolated_iff_two :
    let md₁ : JobMetadata := ⟨"app", "ns", .actor "T" "a"⟩
    let md₂ : JobMetadata := ⟨"app", "ns", .actor "T" "b"⟩
    let key₁ := joinStrings ["actorreminder", "ns", "T", "a", "r"]
    let key₂ := joinStrings ["actorreminder", "ns", "T", "b", "r"]
    let s := (mapCron Nat).add ((mapCron Nat).add ∅ key₁ ⟨md₁, 1⟩) key₂ ⟨md₂, 2⟩
    key₁ ≠ key₂ ∧ ∃ jobs s', listJobs (mapCron Nat) s .plain md₁ = .ok jobs ∧
      deleteByMetadata (mapCron Nat) s .plain md₁ none = .ok s' ∧
      ⟨"r", md₂, 2⟩ ∉ jobs ∧ (mapCron Nat).get s' key₂ ≠ none := by
  intro md₁ md₂ key₁ key₂ s
  have hclean : ∀ f ∈ (Owner.actor "ns" "T" "b").texts "r", '|' ∉ f := by decide +kernel
  have hne : Owner.actor "ns" "T" "b" ≠ Owner.actor "ns" "T" "a" := by decide
  have hnot : ¬ (Owner.actor "ns" "T" "a").Confused (.actor "ns" "T" "b") "r" := not_confused hclean
  have h₁ : fromRequest .plain ⟨"r", md₁, false⟩ = .ok key₁ := by decide +kernel
  have h₂ : fromRequest .plain ⟨"r", md₂, false⟩ = .ok key₂ := by decide +kernel
  have hschedule : ∀ {s md key}, fromRequest .plain ⟨"r", md, false⟩ = .ok key → ∀ job,
      serve (mapCron Nat) s .plain (.scheduleJob "r" md true job) = .ok ((mapCron Nat).add s key ⟨md, job⟩) := by
    intro s md key hkey job
    simp [serve, scheduleJob, hkey, bind, Except.bind]
  have hempty : (mapCron Nat).Keyed ∅ := fun _ _ h => nomatch h
  have hlawful := mapCron_lawful Nat
  have hkeyed := keyed_serve hlawful (keyed_serve hlawful hempty (hschedule h₁ 1)) (hschedule h₂ 2)
  obtain ⟨hkeys, hstored⟩ := jobs_isolated_iff h₁ h₂ rfl rfl
  refine ⟨?_, ?_⟩
  · exact hkeys.2 (fun h => hnot ⟨hne.symm, _, h.2⟩) fun h => hne.symm (Prod.mk.inj h).1
  · have hget : (mapCron Nat).get s key₂ = some ⟨md₂, 2⟩ := (hlawful.get_add _ _ _ _).trans (if_pos rfl)
    obtain ⟨jobs, s', hjobs, hs', hiff⟩ := hstored _ Nat _ s 2 hlawful hkeyed hget (by decide +kernel)
      (show "a" ≠ "" by decide)
    obtain ⟨hlisted, hdeleted⟩ := hiff.2 hnot
    exact ⟨jobs, s', hjobs, hs', fun h => hne (hlisted.1 h), fun h => hne (hdeleted.1 h)⟩

/-- Reminder `b||c` of actor `a` and reminder `c` of actor `a||b` have one key; so another app, with the metadata of
actor `a`, lists and deletes the reminder of actor `a||b`. -/
theorem reminder_of_other_actor :
    let caller : Caller := .identified "ns" "app"
    let other : Caller := .identified "ns" "other"
    let md : JobMetadata := ⟨"app", "ns", .actor "T" "a||b"⟩
    let mdOther : JobMetadata := ⟨"other", "ns", .actor "T" "a"⟩
    (fromRequest caller ⟨"c", md, true⟩).toOption = some "actorreminder||ns||T||a||b||c" ∧
    (fromRequest other ⟨"b||c", mdOther, true⟩).toOption = some "actorreminder||ns||T||a||b||c" ∧
    ((scheduleJob (mapCron Nat) ∅ caller "c" md false 1).toOption.map fun s =>
      ((listJobs (mapCron Nat) s other mdOther).toOption.map (·.map fun j => (j.name, j.metadata, j.job)),
        (deleteByMetadata (mapCron Nat) s other mdOther none).toOption.map (·.keys))) =
      some (some [("c", md, 1)], some []) := by
  decide +kernel

end Dapr.SchedulerApi
