import Dapr.Authority.Leadership
import Dapr.JobPool.Gates
/-!
# The shares of a limit

Each scheduler sorts the hosts it was told of, in whatever order they came, and takes the share of a
global limit that belongs to its place among them. The places are those below the number of hosts,
each taken once, so the shares add up.
-/

namespace Dapr.JobPool

open List
open Authority (Host schedulerPosition)

variable {hosts : List Host} {a : Host} {limit n : Nat}

/-- The addresses in the order in which places are given. -/
def places (hosts : List Host) : List String := (hosts.map Host.address).insertionSort (· ≤ ·)

theorem perm_places (hosts : List Host) : (places hosts).Perm (hosts.map Host.address) := perm_insertionSort _ _

theorem places_eq_of_perm {l : List Host} (h : l.Perm hosts) : places l = places hosts :=
  Perm.eq_of_pairwise (fun _ _ _ _ => String.le_antisymm) (pairwise_insertionSort _ _) (pairwise_insertionSort _ _)
    ((perm_places l).trans ((h.map _).trans (perm_places hosts).symm))

/-- A host takes the place of its address, whatever the order in which it saw the hosts. -/
theorem schedulerPosition_eq {l : List Host} (h : l.Perm hosts) (ha : a ∈ hosts) :
    schedulerPosition l a.address = (hosts.length, (places hosts).idxOf a.address) := by
  have hin : a.address ∈ places hosts := (perm_places hosts).mem_iff.2 (mem_map_of_mem ha)
  have hlen : ¬ l.length < 1 := by
    have := length_pos_of_mem (h.mem_iff.2 ha)
    omega
  unfold schedulerPosition
  rw [if_neg hlen, h.length_eq]
  change (_, ((places l).findIdx? _).getD 0) = _
  rw [places_eq_of_perm h, findIdx?_eq_some_of_exists ⟨_, hin, by simp⟩, List.idxOf]
  simp [BEq.beq]

/-- The share that a host computes from the hosts it sees. -/
def shareOf (limit : Nat) (view : Host → List Host) (a : Host) : Nat :=
  localLimitFromGlobal limit (schedulerPosition (view a) a.address).1 (schedulerPosition (view a) a.address).2

/-- Two shares differ by one at most. -/
theorem localLimitFromGlobal_le (limit n i j : Nat) :
    localLimitFromGlobal limit n i ≤ localLimitFromGlobal limit n j + 1 := by
  unfold localLimitFromGlobal
  dsimp only
  split_ifs <;> omega

theorem sum_ite_lt (q r n : Nat) :
    ((range n).map fun i => if i < r then q + 1 else q).sum = n * q + min n r := by
  induction n with
  | zero => simp
  | succ n ih =>
    rw [range_succ, map_append, sum_append, Nat.succ_mul]
    simp only [map_singleton, sum_singleton]
    split <;> omega

/-- The shares of all places. -/
theorem sum_localLimitFromGlobal (hn : 0 < n) (h : n ≤ limit) :
    ((range n).map (localLimitFromGlobal limit n)).sum = limit := by
  rcases Nat.eq_or_lt_of_le hn with rfl | hone
  · simp [localLimitFromGlobal]
  · have hbase : 1 ≤ limit / n := (Nat.one_le_div_iff hn).2 h
    have hshare : localLimitFromGlobal limit n = fun i => if i < limit % n then limit / n + 1 else limit / n := by
      funext i
      unfold localLimitFromGlobal
      rw [if_neg (by omega)]
      exact if_neg (by omega)
    rw [hshare, sum_ite_lt, Nat.min_eq_right (Nat.mod_lt limit hn).le, Nat.div_add_mod]

/-- The places of the hosts are those below their number. -/
theorem perm_idxOf_places (h : (hosts.map Host.address).Nodup) :
    (hosts.map fun a => (places hosts).idxOf a.address).Perm (range hosts.length) := by
  have hnodup : (places hosts).Nodup := (perm_places hosts).nodup_iff.2 h
  have hrange : (places hosts).map (places hosts).idxOf = range hosts.length := by
    refine ext_getElem (by simp [(perm_places hosts).length_eq]) fun i _ _ => ?_
    simp [hnodup.idxOf_getElem]
  rw [← hrange, ← Function.comp_def (places hosts).idxOf, ← map_map]
  exact ((perm_places hosts).map _).symm

/-- Schedulers that see the same hosts take different places below their number, and have shares that differ by one at
most; a limit that reaches for all of them is shared out exactly. -/
theorem limits_shared_exactly (hosts : List Host) (hdistinct : (hosts.map Host.address).Nodup)
    (view : Host → List Host) (hview : ∀ a ∈ hosts, (view a).Perm hosts) (limit : Nat) :
    (∀ a ∈ hosts, (schedulerPosition (view a) a.address).1 = hosts.length ∧
      (schedulerPosition (view a) a.address).2 < hosts.length) ∧
    (∀ a ∈ hosts, ∀ b ∈ hosts,
      (schedulerPosition (view a) a.address).2 = (schedulerPosition (view b) b.address).2 → a = b) ∧
    (∀ a ∈ hosts, ∀ b ∈ hosts, shareOf limit view a ≤ shareOf limit view b + 1) ∧
    (hosts ≠ [] → hosts.length ≤ limit → (hosts.map (shareOf limit view)).sum = limit) := by
  have hposition := fun a ha => schedulerPosition_eq (hview a ha) ha
  have hin : ∀ a ∈ hosts, a.address ∈ places hosts := fun a ha =>
    (perm_places hosts).mem_iff.2 (mem_map_of_mem ha)
  refine ⟨fun a ha => ?_, fun a ha b hb hsame => ?_, fun a ha b hb => ?_, fun hne hle => ?_⟩
  · rw [hposition a ha]
    refine ⟨rfl, ?_⟩
    simpa [(perm_places hosts).length_eq] using idxOf_lt_length_of_mem (hin a ha)
  · rw [hposition a ha, hposition b hb] at hsame
    exact inj_on_of_nodup_map hdistinct ha hb ((idxOf_inj (hin a ha)).1 hsame)
  · simp only [shareOf, hposition a ha, hposition b hb]
    exact localLimitFromGlobal_le ..
  · have hshares : hosts.map (shareOf limit view) =
        (hosts.map fun a => (places hosts).idxOf a.address).map (localLimitFromGlobal limit hosts.length) := by
      rw [map_map]
      exact map_congr_left fun a ha => by simp [shareOf, hposition a ha]
    rw [hshares, ((perm_idxOf_places hdistinct).map _).sum_eq]
    exact sum_localLimitFromGlobal (length_pos_iff.2 hne) hle

def threeHosts : List Host := [⟨"c", false, true⟩, ⟨"a", true, true⟩, ⟨"b", false, false⟩]

/-- The last place has the smallest share of eight. -/
theorem limits_shared_exactly_eight : (threeHosts.map (shareOf 8 fun _ => threeHosts)).sum = 8 ∧
    threeHosts.map (shareOf 8 fun _ => threeHosts) = [2, 3, 3] :=
  ⟨(limits_shared_exactly threeHosts (by decide) _ (fun _ _ => .refl _) 8).2.2.2 (by decide) (by decide), by decide⟩

end Dapr.JobPool
