import Dapr.Lib.Runs
import Dapr.Lib.Tables
import Mathlib.Data.List.Sort
import Mathlib.Data.List.Dedup
/-!
# The placement store of a namespace

Which stream hosts which actor types, the placement tables built from that, and the actor
types whose table a change of membership concerns. Ranging over the stored hosts goes in no
fixed order, so a table is built from a list of the entries in some order.
-/

namespace Dapr.SchedulerPlacement

open List

structure ActorHost where
  address : String
  appId : String
  actorTypes : List String
  deriving DecidableEq, Repr

/-- The placement table of one actor type: the app id of each host by its address. -/
abbrev Table := AList fun _ : String => String

/-- Two tables with the same hosts. -/
def Table.Same (a b : Table) : Prop := ∀ address, a.lookup address = b.lookup address

theorem Table.Same.refl (a : Table) : a.Same a := fun _ => rfl

variable {a b : Table} {t : String} {i j : Nat} {host : ActorHost}

theorem Table.Same.symm (h : a.Same b) : b.Same a := fun address => (h address).symm

theorem Table.Same.trans {c : Table} (h : a.Same b) (h' : b.Same c) : a.Same c :=
  fun address => (h address).trans (h' address)

inductive HashAlgorithm where
  | unknown
  | rendezvous
  deriving DecidableEq, Repr

structure PlacementTables where
  hashAlgorithm : HashAlgorithm
  entries : List (String × Table)

/-- A stream's index and the host it reported. -/
abbrev HostEntry := Sigma fun _ : Nat => ActorHost

structure Store where
  hosts : AList fun _ : Nat => ActorHost

variable {hosts hosts' : List HostEntry} {s : Store} {e : HostEntry}

/-! ## Changed actor types -/

/-- Drop each element that equals the one after it. -/
def compact : List String → List String
  | [] => []
  | [a] => [a]
  | a :: b :: l => if a = b then compact (b :: l) else a :: compact (b :: l)

def union (a b : List String) : List String := compact ((a ++ b).insertionSort (· ≤ ·))

def symmetricDiff : List String → List String → List String
  | [], b => b
  | a, [] => a
  | x :: a, y :: b =>
    if x = y then symmetricDiff a b
    else if x < y then x :: symmetricDiff a (y :: b)
    else y :: symmetricDiff (x :: a) b
termination_by a b => a.length + b.length

theorem mem_compact {l : List String} (h : t ∈ l) : t ∈ compact l := by
  fun_induction compact l with
  | case1 | case2 => exact h
  | case3 b l ih =>
    refine ih ?_
    simpa using h
  | case4 a b l hne ih =>
    rcases mem_cons.1 h with rfl | hl
    · exact mem_cons_self
    · exact mem_cons_of_mem _ (ih hl)

theorem mem_union {a b : List String} (h : t ∈ a ∨ t ∈ b) : t ∈ union a b :=
  mem_compact ((mem_insertionSort _).2 (mem_append.2 h))

/-- An element of one list only is never cancelled out. -/
theorem mem_symmetricDiff {a b : List String} (h : t ∈ a ∧ t ∉ b ∨ t ∈ b ∧ t ∉ a) : t ∈ symmetricDiff a b := by
  fun_induction symmetricDiff a b with
  | case1 | case2 => simpa using h
  | case3 a y b ih =>
    refine ih ?_
    simp only [mem_cons] at h
    tauto
  | case4 _ _ _ _ _ _ ih | case5 _ _ _ _ _ _ ih =>
    simp only [mem_cons] at h ih ⊢
    tauto

/-! ## Changes of the store -/

namespace Store

def new : Store := ⟨∅⟩

/-- Install the host a stream reported; the first component are the types whose table changed. -/
def set (s : Store) (streamIDx : Nat) (host : ActorHost) : List String × Store :=
  let host := { host with actorTypes := host.actorTypes.insertionSort (· ≤ ·) }
  let changed := match s.hosts.lookup streamIDx with
    | none => host.actorTypes
    | some existing =>
      if existing.address ≠ host.address ∨ existing.appId ≠ host.appId then
        union existing.actorTypes host.actorTypes
      else symmetricDiff existing.actorTypes host.actorTypes
  (changed, ⟨if host.actorTypes = [] then s.hosts.erase streamIDx else s.hosts.insert streamIDx host⟩)

def delete (s : Store) (streamIDx : Nat) : List String × Store :=
  match s.hosts.lookup streamIDx with
  | none => ([], s)
  | some existing => (existing.actorTypes, ⟨s.hosts.erase streamIDx⟩)

def types (s : Store) : List String :=
  ((s.hosts.entries.flatMap fun e => e.2.actorTypes).dedup).insertionSort (· ≤ ·)

/-- The table of one type, from the hosts in the order they are ranged over. -/
def table (hosts : List HostEntry) (t : String) : Table :=
  hosts.foldl (fun table e => if t ∈ e.2.actorTypes then table.insert e.2.address e.2.appId else table) ∅

def tables (hosts : List HostEntry) (types : List String) : PlacementTables :=
  ⟨.rendezvous, types.map fun t => (t, table hosts t)⟩

end Store

/-! ## What a table holds -/

/-- No two streams report the same address with different app ids. -/
def Consistent (hosts : List HostEntry) : Prop :=
  ∀ e ∈ hosts, ∀ e' ∈ hosts, e.2.address = e'.2.address → e.2.appId = e'.2.appId

theorem Consistent.perm (h : Consistent hosts) (hp : hosts'.Perm hosts) : Consistent hosts' :=
  fun e he e' he' => h e (hp.mem_iff.1 he) e' (hp.mem_iff.1 he')

/-- The host serves the type, under the address and for the app. -/
def ActorHost.Offers (host : ActorHost) (t address appId : String) : Prop :=
  t ∈ host.actorTypes ∧ host.address = address ∧ host.appId = appId

/-- Some stream hosts the type at the address, under the app id. -/
def Hosted (hosts : List HostEntry) (t address appId : String) : Prop :=
  ∃ e ∈ hosts, e.2.Offers t address appId

namespace Store

/-- A table holds exactly the hosts of its type. -/
theorem lookup_table (hc : Consistent hosts) (t address appId : String) :
    (table hosts t).lookup address = some appId ↔ Hosted hosts t address appId :=
  Lib.Tables.lookup_collect hc address appId

theorem same_table (hc : Consistent hosts) (hc' : Consistent hosts')
    (h : ∀ address appId, Hosted hosts t address appId ↔ Hosted hosts' t address appId) :
    (table hosts t).Same (table hosts' t) := by
  intro address
  apply Option.ext
  intro appId
  rw [lookup_table hc, lookup_table hc', h]

theorem same_table_of_perm (hc : Consistent hosts) (hp : hosts'.Perm hosts) (t : String) :
    (table hosts' t).Same (table hosts t) :=
  same_table (hc.perm hp) hc fun address appId => by simp [Hosted, hp.mem_iff]

/-! ## What a change does to the tables -/

theorem mem_entries : e ∈ s.hosts.entries ↔ s.hosts.lookup e.1 = some e.2 :=
  AList.mem_lookup_iff.symm

theorem lookup_set_ne (s : Store) (host : ActorHost) (h : j ≠ i) :
    (s.set i host).2.hosts.lookup j = s.hosts.lookup j := by
  unfold set
  dsimp only
  split
  · exact AList.lookup_erase_ne h
  · exact AList.lookup_insert_ne h

theorem lookup_set_self (s : Store) (i : Nat) (host : ActorHost) :
    (s.set i host).2.hosts.lookup i =
      if host.actorTypes = [] then none
      else some { host with actorTypes := host.actorTypes.insertionSort (· ≤ ·) } := by
  have hnil : host.actorTypes.insertionSort (· ≤ ·) = [] ↔ host.actorTypes = [] := by
    rw [← length_eq_zero_iff, length_insertionSort, length_eq_zero_iff]
  unfold set
  simp only [hnil]
  split
  · exact AList.lookup_erase _ _
  · exact AList.lookup_insert _

theorem lookup_delete_ne (s : Store) (h : j ≠ i) : (s.delete i).2.hosts.lookup j = s.hosts.lookup j := by
  unfold delete
  split
  · rfl
  · exact AList.lookup_erase_ne h

theorem lookup_delete_self (s : Store) (i : Nat) : (s.delete i).2.hosts.lookup i = none := by
  unfold delete
  split
  · assumption
  · exact AList.lookup_erase _ _

theorem hosted_congr {s' : Store} (hne : ∀ j, j ≠ i → s'.hosts.lookup j = s.hosts.lookup j)
    (hself : ∀ address appId, (∃ host, s'.hosts.lookup i = some host ∧ host.Offers t address appId) ↔
      ∃ host, s.hosts.lookup i = some host ∧ host.Offers t address appId) (address appId : String) :
    Hosted s'.hosts.entries t address appId ↔ Hosted s.hosts.entries t address appId := by
  have hsplit : ∀ s : Store, Hosted s.hosts.entries t address appId ↔
      (∃ host, s.hosts.lookup i = some host ∧ host.Offers t address appId) ∨
        ∃ j, j ≠ i ∧ ∃ host, s.hosts.lookup j = some host ∧ host.Offers t address appId := by
    intro s
    constructor
    · rintro ⟨⟨j, host⟩, he, hoff⟩
      rw [mem_entries] at he
      by_cases hj : j = i
      · exact .inl ⟨host, hj ▸ he, hoff⟩
      · exact .inr ⟨j, hj, host, he, hoff⟩
    · rintro (⟨host, he, hoff⟩ | ⟨j, -, host, he, hoff⟩)
      · exact ⟨⟨i, host⟩, mem_entries.2 he, hoff⟩
      · exact ⟨⟨j, host⟩, mem_entries.2 he, hoff⟩
  rw [hsplit, hsplit, hself]
  refine or_congr_right (exists_congr fun j => and_congr_right fun hj => ?_)
  rw [hne j hj]

/-- A report leaves the hosts of the types alone that it does not return. -/
theorem hosted_set (s : Store) (i : Nat) (host : ActorHost) (ht : t ∉ (s.set i host).1) (address appId : String) :
    Hosted (s.set i host).2.hosts.entries t address appId ↔ Hosted s.hosts.entries t address appId := by
  refine hosted_congr (fun j hj => lookup_set_ne s host hj) (fun address appId => ?_) address appId
  have hsort : t ∈ host.actorTypes.insertionSort (· ≤ ·) ↔ t ∈ host.actorTypes := mem_insertionSort _
  have hafter : (∃ h, (s.set i host).2.hosts.lookup i = some h ∧ h.Offers t address appId) ↔
      host.Offers t address appId := by
    rw [lookup_set_self]
    by_cases hnil : host.actorTypes = []
    · simp [hnil, ActorHost.Offers]
    · simp [hnil, ActorHost.Offers]
  rw [hafter]
  unfold set at ht
  cases hex : s.hosts.lookup i with
  | none =>
    rw [hex] at ht
    simp only [hsort] at ht
    simp [ActorHost.Offers, ht]
  | some existing =>
    rw [hex] at ht
    dsimp only at ht
    split at ht
    · have hnot : t ∉ existing.actorTypes ∧ t ∉ host.actorTypes := by
        rw [← not_or]
        exact fun hor => ht (mem_union (hor.imp_right hsort.2))
      simp [ActorHost.Offers, hnot]
    · rename_i hid
      have hiff : t ∈ existing.actorTypes ↔ t ∈ host.actorTypes := by
        by_contra hne
        refine ht (mem_symmetricDiff ?_)
        tauto
      rw [not_or, not_not, not_not] at hid
      simp [ActorHost.Offers, hiff, hid]

theorem hosted_delete (s : Store) (i : Nat) (ht : t ∉ (s.delete i).1) (address appId : String) :
    Hosted (s.delete i).2.hosts.entries t address appId ↔ Hosted s.hosts.entries t address appId := by
  refine hosted_congr (fun j hj => lookup_delete_ne s hj) (fun address appId => ?_) address appId
  rw [lookup_delete_self]
  unfold delete at ht
  cases hex : s.hosts.lookup i with
  | none => rfl
  | some existing =>
    rw [hex] at ht
    simp [ActorHost.Offers, ht]

/-- What a report says agrees with what the other streams reported. -/
def Agrees (s : Store) (i : Nat) (host : ActorHost) : Prop :=
  ∀ e ∈ s.hosts.entries, e.1 ≠ i → e.2.address = host.address → e.2.appId = host.appId

theorem consistent_set (hc : Consistent s.hosts.entries) (ha : s.Agrees i host) :
    Consistent (s.set i host).2.hosts.entries := by
  -- an entry afterwards is another stream's, or the reported one
  have hmem : ∀ e ∈ (s.set i host).2.hosts.entries, e ∈ s.hosts.entries ∧ e.1 ≠ i ∨
      e.1 = i ∧ e.2.address = host.address ∧ e.2.appId = host.appId := by
    intro e he
    rw [mem_entries] at he
    by_cases hi : e.1 = i
    · rw [hi, lookup_set_self] at he
      split at he
      · cases he
      · rw [← Option.some.inj he]
        exact .inr ⟨hi, rfl, rfl⟩
    · rw [lookup_set_ne s host hi] at he
      exact .inl ⟨mem_entries.2 he, hi⟩
  intro e he e' he' haddr
  rcases hmem e he with ⟨hold, hne⟩ | ⟨-, hadr, happ⟩ <;> rcases hmem e' he' with ⟨hold', hne'⟩ | ⟨-, hadr', happ'⟩
  · exact hc e hold e' hold' haddr
  · exact (ha e hold hne (haddr.trans hadr')).trans happ'.symm
  · exact happ.trans (ha e' hold' hne' (haddr.symm.trans hadr)).symm
  · exact happ.trans happ'.symm

theorem mem_of_mem_delete (he : e ∈ (s.delete i).2.hosts.entries) : e ∈ s.hosts.entries ∧ e.1 ≠ i := by
  rw [mem_entries] at he
  have hne : e.1 ≠ i := by
    rintro rfl
    rw [lookup_delete_self] at he
    cases he
  exact ⟨mem_entries.2 (lookup_delete_ne s hne ▸ he), hne⟩

theorem mem_of_mem_set (he : e ∈ (s.set i host).2.hosts.entries) : e ∈ s.hosts.entries ∨ e.1 = i := by
  rw [mem_entries] at he
  by_cases hi : e.1 = i
  · exact .inr hi
  · exact .inl (mem_entries.2 (lookup_set_ne s host hi ▸ he))

/-! ## Sequences of calls -/

inductive Call where
  | set (streamIDx : Nat) (host : ActorHost)
  | delete (streamIDx : Nat)

def call (s : Store) : Call → List String × Store
  | .set i host => s.set i host
  | .delete i => s.delete i

/-- A report says what the other streams say about the app at its address. -/
def Meets (s : Store) : Call → Prop
  | .set i host => s.Agrees i host
  | .delete _ => True

/-- What calls that meet the condition lead to. -/
def Reached : Store → Prop := Lib.Runs.Reachable (· = new) (Lib.Runs.Steps Meets fun s c => some (s.call c).2)

/-- Some stream has reported the host. -/
def Registered (s : Store) (host : ActorHost) : Prop := ∃ i, s.hosts.lookup i = some host

theorem hosted_iff (t address appId : String) :
    Hosted s.hosts.entries t address appId ↔ ∃ host, s.Registered host ∧ host.Offers t address appId := by
  constructor
  · rintro ⟨e, he, hoff⟩
    exact ⟨e.2, ⟨e.1, mem_entries.1 he⟩, hoff⟩
  · rintro ⟨host, ⟨i, hi⟩, hoff⟩
    exact ⟨⟨i, host⟩, mem_entries.2 hi, hoff⟩

theorem consistent_call {c : Call} (hc : Consistent s.hosts.entries) (hm : s.Meets c) :
    Consistent (s.call c).2.hosts.entries := by
  cases c with
  | set i host => exact consistent_set hc hm
  | delete i =>
    intro e he e' he'
    exact hc e (mem_of_mem_delete he).1 e' (mem_of_mem_delete he').1

theorem hosted_call {c : Call} (ht : t ∉ (s.call c).1) (address appId : String) :
    Hosted (s.call c).2.hosts.entries t address appId ↔ Hosted s.hosts.entries t address appId := by
  cases c with
  | set i host => exact hosted_set s i host ht address appId
  | delete i => exact hosted_delete s i ht address appId

theorem Reached.consistent (h : s.Reached) : Consistent s.hosts.entries := by
  refine Lib.Runs.Reachable.invariant (fun s => Consistent s.hosts.entries) ?_ ?_ h
  · rintro s rfl e he
    cases he
  · rintro s s' hc ⟨c, hm, hs⟩
    cases hs
    exact consistent_call hc hm

/-- A call returns every type whose table is another one afterwards, and tables built from the same hosts are the
same, whatever the streams are that reported them and the order in which they are ranged over. -/
theorem changes_reported (h : s.Reached) :
    (∀ c, s.Meets c → ∀ t before after, before.Perm s.hosts.entries → after.Perm (s.call c).2.hosts.entries →
      ¬ (table after t).Same (table before t) → t ∈ (s.call c).1) ∧
    ∀ s' : Store, s'.Reached → (∀ host, s.Registered host ↔ s'.Registered host) → ∀ t hosts hosts',
      hosts.Perm s.hosts.entries → hosts'.Perm s'.hosts.entries → (table hosts t).Same (table hosts' t) := by
  constructor
  · intro c hm t before after hbefore hafter hdiffers
    by_contra ht
    have hc := consistent_call h.consistent hm
    have hcall : (table (s.call c).2.hosts.entries t).Same (table s.hosts.entries t) :=
      same_table hc h.consistent (hosted_call ht)
    refine hdiffers ((same_table_of_perm hc hafter t).trans (hcall.trans ?_))
    exact (same_table_of_perm h.consistent hbefore t).symm
  · intro s' h' hsame t hosts hosts' hp hp'
    have hbuilt : (table s.hosts.entries t).Same (table s'.hosts.entries t) := by
      refine same_table h.consistent h'.consistent fun address appId => ?_
      rw [hosted_iff, hosted_iff]
      exact exists_congr fun host => and_congr_left' (hsame host)
    exact (same_table_of_perm h.consistent hp t).trans (hbuilt.trans (same_table_of_perm h'.consistent hp' t).symm)

/-- A host of two types stops hosting one of them. -/
theorem changes_reported_shop :
    let shop : ActorHost := ⟨"10.0.0.1:50002", "shop", ["order", "cart"]⟩
    let s := (new.call (.set 0 shop)).2
    let c := Call.set 0 { shop with actorTypes := ["cart"] }
    (s.call c).1 = ["order"] ∧ (table (s.call c).2.hosts.entries "cart").Same (table s.hosts.entries "cart") := by
  intro shop s c
  have hs : s.Reached := .step (.start rfl) ⟨.set 0 shop, ⟨fun e he => (by cases he), rfl⟩⟩
  have hm : s.Meets c := by
    intro e he hne
    rcases mem_of_mem_set he with hnew | heq
    · cases hnew
    · exact absurd heq hne
  refine ⟨by decide +kernel, ?_⟩
  by_contra hdiffers
  have hmem := (changes_reported hs).1 c hm "cart" _ _ (.refl _) (.refl _) hdiffers
  revert hmem
  decide +kernel

/-- Two apps report one address: which of them the table names depends on the order of the hosts. -/
theorem address_of_two_apps :
    let first := (new.call (.set 0 ⟨"10.0.0.1:50002", "shop", ["cart"]⟩)).2
    let s := (first.call (.set 1 ⟨"10.0.0.1:50002", "till", ["cart"]⟩)).2
    (table s.hosts.entries "cart").lookup "10.0.0.1:50002" = some "shop" ∧
      (table s.hosts.entries.reverse "cart").lookup "10.0.0.1:50002" = some "till" := by
  decide +kernel

end Store

end Dapr.SchedulerPlacement
