import Dapr.Lib.Tables
import Mathlib.Data.List.Sort
/-!
# The store of the placement service

The hosts that the streams of a namespace reported, and the placement tables built from
them. Hosts without actor types are not stored.
-/

namespace Dapr.Placement

open Lib.Tables

structure Host where
  name : String
  port : Int
  id : String
  ns : String
  entities : List String
  deriving DecidableEq, Repr

/-- What a placement table says of a host. -/
structure Entry where
  port : Int
  appId : String
  deriving DecidableEq, Repr

def Host.entry (h : Host) : Entry := ⟨h.port, h.id⟩

/-- The placement table of one actor type: its hosts by name. -/
abbrev Table := AList fun _ : String => Entry

abbrev HostEntry := Sigma fun _ : Nat => Host

structure Store where
  hosts : AList fun _ : Nat => Host

namespace Store

def new : Store := ⟨∅⟩

def hostChanged (s : Store) (streamIDx : Nat) (host : Host) : Bool :=
  let entities := host.entities.insertionSort (· ≤ ·)
  match s.hosts.lookup streamIDx with
  | none => entities ≠ []
  | some existing => existing.entities ≠ entities ∨ host.id ≠ existing.id ∨ host.ns ≠ existing.ns

/-- Store what a stream reported; and whether that changed anything. -/
def set (s : Store) (streamIDx : Nat) (host : Host) : Bool × Store :=
  if s.hostChanged streamIDx host then
    let host := { host with entities := host.entities.insertionSort (· ≤ ·) }
    (true, ⟨if host.entities = [] then s.hosts.erase streamIDx else s.hosts.insert streamIDx host⟩)
  else (false, s)

def has (s : Store) (streamIDx : Nat) : Bool := (s.hosts.lookup streamIDx).isSome

def delete (s : Store) (streamIDx : Nat) : Store := ⟨s.hosts.erase streamIDx⟩

def deleteAll (s : Store) (streams : List Nat) : Store := streams.foldl delete s

def collectOrphans (s : Store) (active : List Nat) : List Nat :=
  (s.hosts.entries.map Sigma.fst).filter fun i => i ∉ active

/-- The table of one type, from the hosts in the order they are ranged over. -/
def table (hosts : List HostEntry) (t : String) : Table :=
  collect (fun e => t ∈ e.2.entities) (fun e => e.2.name) (fun e => e.2.entry) hosts

def placementTables (hosts : List HostEntry) : AList fun _ : String => Table :=
  collect (fun _ => True) id (table hosts) (hosts.flatMap fun e => e.2.entities)

end Store

/-! ## What the tables hold -/

/-- Every stored host is the one that goes by its name. -/
def Named (ident : String → Entry) (hosts : List HostEntry) : Prop := ∀ e ∈ hosts, e.2.entry = ident e.2.name

namespace Store

variable {ident : String → Entry} {hosts hosts' : List HostEntry} {s : Store} {e : HostEntry} {i : Nat} {host : Host}

theorem same_table_of_mem (h : Named ident hosts) (hmem : ∀ e, e ∈ hosts' ↔ e ∈ hosts) (t : String) :
    Same (table hosts' t) (table hosts t) := by
  have hc : ∀ l : List HostEntry, (∀ e ∈ l, e ∈ hosts) → ∀ a ∈ l, ∀ b ∈ l, a.2.name = b.2.name →
      a.2.entry = b.2.entry := fun l hl a ha b hb hname => by rw [h a (hl a ha), h b (hl b hb), hname]
  exact same_collect (hc hosts' fun e he => (hmem e).1 he) (hc hosts fun _ he => he) fun k v => by simp [hmem]

theorem same_table_of_perm (h : Named ident hosts) (hp : hosts'.Perm hosts) (t : String) :
    Same (table hosts' t) (table hosts t) :=
  same_table_of_mem h (fun _ => hp.mem_iff) t

/-- What is pushed for a type is its table. -/
theorem eq_of_lookup_placementTables {t : String} {tbl : Table} (h : (placementTables hosts).lookup t = some tbl) :
    tbl = table hosts t := by
  have hc : ∀ a ∈ hosts.flatMap (fun e => e.2.entities), ∀ b ∈ hosts.flatMap (fun e => e.2.entities),
      id a = id b → table hosts a = table hosts b := fun a _ b _ hab => by rw [show a = b from hab]
  obtain ⟨t', -, -, rfl, rfl⟩ := (lookup_collect hc t tbl).1 h
  rfl

theorem mem_entries : e ∈ s.hosts.entries ↔ s.hosts.lookup e.1 = some e.2 :=
  AList.mem_lookup_iff.symm

theorem mem_delete : e ∈ (s.delete i).hosts.entries ↔ e ∈ s.hosts.entries ∧ e.1 ≠ i := by
  rw [mem_entries, mem_entries, delete]
  by_cases hi : e.1 = i
  · rw [← hi]
    simp
  · simp [hi]

theorem mem_deleteAll {streams : List Nat} :
    e ∈ (s.deleteAll streams).hosts.entries ↔ e ∈ s.hosts.entries ∧ e.1 ∉ streams := by
  unfold deleteAll
  induction streams generalizing s with
  | nil => simp
  | cons i streams ih =>
    rw [List.foldl_cons, ih, mem_delete]
    simp [and_assoc]

theorem mem_of_mem_set (h : e ∈ (s.set i host).2.hosts.entries) :
    e ∈ s.hosts.entries ∨ e.1 = i ∧ e.2.name = host.name ∧ e.2.entry = host.entry := by
  unfold set at h
  split at h
  · rw [mem_entries] at h
    dsimp only at h
    by_cases hi : e.1 = i
    · rw [hi] at h
      split at h
      · rw [AList.lookup_erase] at h
        cases h
      · rw [AList.lookup_insert, Option.some_inj] at h
        exact .inr ⟨hi, by rw [← h], by rw [← h]; rfl⟩
    · refine .inl (mem_entries.2 ?_)
      split at h
      · rwa [AList.lookup_erase_ne hi] at h
      · rwa [AList.lookup_insert_ne hi] at h
  · exact .inl h

theorem set_of_unchanged (h : (s.set i host).1 = false) : (s.set i host).2 = s := by
  unfold set at h ⊢
  split at h
  · cases h
  · rename_i hc
    rw [if_neg hc]

theorem hostChanged_new (hnew : s.hosts.lookup i = none) (hne : host.entities ≠ []) : s.hostChanged i host = true := by
  have hsorted : host.entities.insertionSort (· ≤ ·) ≠ [] := by
    intro hnil
    have hlen := List.length_insertionSort (· ≤ ·) host.entities
    rw [hnil] at hlen
    exact hne (List.length_eq_zero_iff.1 hlen.symm)
  simp [hostChanged, hnew, hsorted]

theorem set_fst (s : Store) (i : Nat) (host : Host) : (s.set i host).1 = s.hostChanged i host := by
  unfold set
  split
  · exact ‹s.hostChanged i host = true›.symm
  · exact (Bool.eq_false_of_not_eq_true ‹_›).symm

end Store

end Dapr.Placement
