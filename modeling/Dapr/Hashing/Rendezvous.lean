import Dapr.Lib.Ranking
import Dapr.SchedulerPlacement.Store
import Mathlib.Data.String.Basic
/-!
# Rendezvous hashing

The owner of a key is the host with the highest score for it, and the smaller address of those with
the same score. A table keeps its hosts sorted, so that a scan which never replaces on an equal
score finds that host. The owner then depends only on the set of hosts, and a host that joins or
leaves moves only the keys that it gets or had.

The hash is any function of the text that was written to a digest.
-/

namespace Dapr.Hashing.Rendezvous

open Lib.Ranking SchedulerPlacement List

def separator : String := "||"

/-- A digest, by what was written to it. -/
structure Digest where
  written : String
  deriving DecidableEq, Repr

namespace Digest

def reset : Digest := ⟨""⟩

def writeString (d : Digest) (s : String) : Digest := ⟨d.written ++ s⟩

def sum64 (hash : String → UInt64) (d : Digest) : UInt64 := hash d.written

end Digest

/-- A digest that was fed with a host and the separator. -/
def prefixOf (host : String) : Digest := (Digest.reset.writeString host).writeString separator

structure Table where
  hosts : List String
  prefixes : List Digest
  sorted : hosts.Pairwise (· < ·)
  fed : prefixes = hosts.map prefixOf

variable {hosts l : List String} {host owner : String}

theorem mem_of_mem_compact {t : String} (h : t ∈ compact l) : t ∈ l := by
  fun_induction compact l with
  | case1 | case2 => exact h
  | case3 b l ih => exact mem_cons_of_mem _ (ih h)
  | case4 a b l hne ih =>
    rcases mem_cons.1 h with rfl | h
    · exact mem_cons_self
    · exact mem_cons_of_mem _ (ih h)

theorem pairwise_compact (h : l.Pairwise (· ≤ ·)) : (compact l).Pairwise (· < ·) := by
  fun_induction compact l with
  | case1 => exact .nil
  | case2 => simp
  | case3 b l ih => exact ih (pairwise_cons.1 h).2
  | case4 a b l hne ih =>
    obtain ⟨hle, hl⟩ := pairwise_cons.1 h
    refine pairwise_cons.2 ⟨fun c hc => ?_, ih hl⟩
    have hab : a < b := lt_of_le_of_ne (hle b mem_cons_self) hne
    rcases mem_cons.1 (mem_of_mem_compact hc) with rfl | hc
    · exact hab
    · exact lt_of_lt_of_le hab ((pairwise_cons.1 hl).1 c hc)

def new (hosts : List String) : Table where
  hosts := compact (hosts.insertionSort (· ≤ ·))
  prefixes := (compact (hosts.insertionSort (· ≤ ·))).map prefixOf
  sorted := pairwise_compact (pairwise_insertionSort _ _)
  fed := rfl

theorem mem_new : host ∈ (new hosts).hosts ↔ host ∈ hosts :=
  ⟨fun h => (mem_insertionSort _).1 (mem_of_mem_compact h),
    fun h => mem_compact ((mem_insertionSort _).2 h)⟩

def score (hash : String → UInt64) (d : Digest) (key : String) : UInt64 := (d.writeString key).sum64 hash

def lookup (hash : String → UInt64) (t : Option Table) (key : String) : Option String :=
  match t with
  | none => none
  | some t =>
    match t.hosts.zip t.prefixes with
    | [] => none
    | (host, d) :: rest =>
      some (rest.foldl (fun (owner, best) (host, d) =>
        if score hash d key > best then (host, score hash d key) else (owner, best)) (host, score hash d key)).1

def equal (t other : Option Table) : Bool :=
  match t, other with
  | some t, some other => t.hosts = other.hosts
  | none, none => true
  | none, some other => other.hosts.length = 0
  | some t, none => t.hosts.length = 0

/-! ## The owner is the best host -/

section Owner
variable {hash : String → UInt64} {key : String} {t : Table}

/-- The rank of a host for a key. -/
def rank (hash : String → UInt64) (key host : String) : Nat := (score hash (prefixOf host) key).toNat

/-- The loop of `lookup` is a scan of the hosts. -/
theorem lookup_eq_scan : lookup hash (some t) key =
    match t.hosts with
    | [] => none
    | host :: rest => some (scan (rank hash key) host rest) := by
  obtain ⟨hosts, prefixes, sorted, rfl⟩ := t
  cases hosts with
  | nil => rfl
  | cons host rest =>
    have hloop : ∀ (l : List String) (owner : String),
        ((l.zip (l.map prefixOf)).foldl (fun (owner, best) (host, d) =>
          if score hash d key > best then (host, score hash d key) else (owner, best))
          (owner, score hash (prefixOf owner) key)).1 = scan (rank hash key) owner l := by
      intro l
      induction l with
      | nil => exact fun _ => rfl
      | cons host l ih =>
        intro owner
        have hless : score hash (prefixOf host) key > score hash (prefixOf owner) key ↔
            rank hash key owner < rank hash key host := UInt64.lt_iff_toNat_lt
        simp only [map_cons, zip_cons_cons, foldl_cons, scan]
        by_cases h : rank hash key owner < rank hash key host
        · rw [if_pos (hless.2 h), if_pos h]
          exact ih host
        · rw [if_neg (fun h' => h (hless.1 h')), if_neg h]
          exact ih owner
    exact congrArg some (hloop rest host)

theorem lookup_eq_none : lookup hash (some t) key = none ↔ t.hosts = [] := by
  rw [lookup_eq_scan]
  cases t.hosts <;> simp

theorem lookup_eq_some : lookup hash (some t) key = some owner ↔ Best (rank hash key) (· ∈ t.hosts) owner := by
  rw [lookup_eq_scan]
  have hsorted := t.sorted
  cases h : t.hosts with
  | nil => exact ⟨fun hnone => (nomatch hnone), fun hbest => absurd hbest.mem not_mem_nil⟩
  | cons host rest =>
    rw [h] at hsorted
    have hbest : Best (rank hash key) (· ∈ host :: rest) (scan (rank hash key) host rest) := best_scan hsorted
    exact ⟨fun heq => Option.some.inj heq ▸ hbest, fun hb => congrArg some (hbest.unique hb)⟩

theorem exists_owner (hash : String → UInt64) (key : String) (h : host ∈ hosts) :
    ∃ owner, lookup hash (some (new hosts)) key = some owner ∧ Best (rank hash key) (· ∈ hosts) owner := by
  cases hl : lookup hash (some (new hosts)) key with
  | none =>
    have := mem_new.2 h
    rw [lookup_eq_none.1 hl] at this
    cases this
  | some owner => exact ⟨owner, rfl, (lookup_eq_some.1 hl).congr fun _ => mem_new.symm⟩

theorem lookup_new : lookup hash (some (new hosts)) key = some owner ↔ Best (rank hash key) (· ∈ hosts) owner :=
  lookup_eq_some.trans ⟨fun h => h.congr fun _ => mem_new.symm, fun h => h.congr fun _ => mem_new⟩

theorem lookup_new_eq_none : lookup hash (some (new hosts)) key = none ↔ hosts = [] := by
  rw [lookup_eq_none, eq_nil_iff_forall_not_mem, eq_nil_iff_forall_not_mem]
  simp only [mem_new]

end Owner

/-- Lookup gives the host with the greatest score, and the smallest address of several. So it depends on the set of hosts
only: a host that is added gets some keys and moves no others, a host that is removed moves only its own keys, and equal
tables route alike. -/
theorem rendezvous_routing (hash : String → UInt64) (hosts : List String) (key : String) :
    (hosts = [] ↔ lookup hash (some (new hosts)) key = none) ∧
    (∀ owner, lookup hash (some (new hosts)) key = some owner ↔
      owner ∈ hosts ∧ (∀ host ∈ hosts, hash (host ++ "||" ++ key) ≤ hash (owner ++ "||" ++ key)) ∧
        ∀ host ∈ hosts, hash (host ++ "||" ++ key) = hash (owner ++ "||" ++ key) → owner ≤ host) ∧
    (∀ hosts', (∀ host, host ∈ hosts' ↔ host ∈ hosts) →
      lookup hash (some (new hosts')) key = lookup hash (some (new hosts)) key) ∧
    (∀ added hosts', (∀ host, host ∈ hosts' ↔ host = added ∨ host ∈ hosts) →
      lookup hash (some (new hosts')) key = lookup hash (some (new hosts)) key ∨
        lookup hash (some (new hosts')) key = some added) ∧
    (∀ removed hosts', (∀ host, host ∈ hosts' ↔ host ∈ hosts ∧ host ≠ removed) →
      lookup hash (some (new hosts)) key ≠ some removed →
        lookup hash (some (new hosts')) key = lookup hash (some (new hosts)) key) ∧
    ∀ t t', equal t t' = true → lookup hash t key = lookup hash t' key := by
  refine ⟨lookup_new_eq_none.symm, fun owner => ?_, fun hosts' h => ?_, fun added hosts' h => ?_,
    fun removed hosts' h hne => ?_, fun t t' h => ?_⟩
  · rw [lookup_new]
    have hrank : ∀ host, rank hash key host = (hash (host ++ "||" ++ key)).toNat := fun host => by
      simp [rank, score, prefixOf, Digest.sum64, Digest.writeString, Digest.reset, separator]
    constructor
    · rintro ⟨hmem, hmax, hmin⟩
      refine ⟨hmem, fun host hh => ?_, fun host hh heq => hmin host hh (by rw [hrank, hrank, heq])⟩
      exact hmax host hh
    · rintro ⟨hmem, hmax, hmin⟩
      refine ⟨hmem, fun host hh => ?_, fun host hh heq => hmin host hh (UInt64.toNat_inj.1 ?_)⟩
      · exact UInt64.le_iff_toNat_le.1 (hmax host hh)
      · rw [← hrank, ← hrank, heq]
  · apply Option.ext
    intro owner
    rw [lookup_new, lookup_new]
    exact ⟨fun hb => hb.congr fun b => (h b).symm, fun hb => hb.congr h⟩
  · obtain ⟨owner', howner', hbest'⟩ := exists_owner hash key ((h added).2 (.inl rfl))
    rw [howner']
    cases hl : lookup hash (some (new hosts)) key with
    | none =>
      obtain rfl := lookup_new_eq_none.1 hl
      rcases (h owner').1 hbest'.mem with rfl | hmem
      · exact .inr rfl
      · cases hmem
    | some owner => exact ((lookup_new.1 hl).add hbest' h).imp (congrArg some) (congrArg some)
  · cases hl : lookup hash (some (new hosts)) key with
    | none =>
      obtain rfl := lookup_new_eq_none.1 hl
      refine lookup_new_eq_none.2 (eq_nil_iff_forall_not_mem.2 fun host hmem => ?_)
      cases ((h host).1 hmem).1
    | some owner =>
      have hbest := lookup_new.1 hl
      have hstays : owner ≠ removed := fun heq => hne (hl.trans (congrArg some heq))
      exact lookup_new.2 (hbest.restrict (fun b hb => ((h b).1 hb).1) ((h owner).2 ⟨hbest.mem, hstays⟩))
  · cases t with
    | none =>
      cases t' with
      | none => rfl
      | some t' => exact (lookup_eq_none.2 (length_eq_zero_iff.1 (of_decide_eq_true h))).symm
    | some t =>
      cases t' with
      | none => exact lookup_eq_none.2 (length_eq_zero_iff.1 (of_decide_eq_true h))
      | some t' =>
        have heq : t.hosts = t'.hosts := of_decide_eq_true h
        rw [lookup_eq_scan, lookup_eq_scan, heq]

/-- With every score tied the smallest address owns the key, and keeps it when another host leaves. -/
theorem rendezvous_routing_tied :
    lookup (fun _ => 0) (some (new ["b", "a", "b"])) "k" = some "a" ∧
      lookup (fun _ => 0) (some (new ["a"])) "k" = lookup (fun _ => 0) (some (new ["b", "a", "b"])) "k" := by
  have howner : lookup (fun _ => 0) (some (new ["b", "a", "b"])) "k" = some "a" :=
    ((rendezvous_routing (fun _ => 0) ["b", "a", "b"] "k").2.1 "a").2 ⟨by decide, by simp, by decide⟩
  refine ⟨howner, (rendezvous_routing (fun _ => 0) ["b", "a", "b"] "k").2.2.2.2.1 "b" ["a"] ?_ ?_⟩
  · intro host
    simp only [mem_cons, not_mem_nil, or_false]
    constructor
    · rintro rfl
      decide
    · rintro ⟨rfl | rfl | rfl, hne⟩
      · exact absurd rfl hne
      · rfl
      · exact absurd rfl hne
  · decide

end Dapr.Hashing.Rendezvous
