import Dapr.Lib.Tables
import Mathlib.Data.List.Sort
import Mathlib.Data.String.Basic
/-!
# Consistent hashing

A ring places each host at the hashes of its virtual nodes, and a key belongs to the host at the
first hash that is not below the key's. A virtual node is labelled with the host's name and, right
behind it, its index: the label of host `a` and index 10 is that of host `a1` and index 0. Where two
hosts share a label, the one written last owns it, and the hosts are written in the order in which
the load map is traversed.

The hash is any function into a linear order. A traversal of a map is given as a list of its keys.
-/

namespace Dapr.Hashing

open Lib.Tables List

def errNoHosts : String := "no hosts added"

structure Host where
  name : String
  port : Int
  load : Int
  appID : String
  deriving DecidableEq, Repr

/-- The load of a host is local to a sidecar, and not compared. -/
def Host.equal (h o : Host) : Bool := h.name = o.name ∧ h.port = o.port ∧ h.appID = o.appID

abbrev LoadMap : Type := AList fun _ : String => Host

variable {replicationFactor : Int}

section Labels
variable {H : Type} (hash : String → H)

/-- The text that is hashed for a virtual node. -/
def label (host : String) (i : Nat) : String := host ++ Nat.repr i

/-- The hashes of a host's virtual nodes. -/
def virtualNodes (replicationFactor : Int) (host : String) : List H :=
  (range replicationFactor.toNat).map fun i => hash (label host i)

theorem mem_virtualNodes {host : String} {h : H} :
    h ∈ virtualNodes hash replicationFactor host ↔ ∃ i : Nat, i < replicationFactor ∧ hash (label host i) = h := by
  simp only [virtualNodes, mem_map, mem_range, Int.lt_toNat]

/-- The hosts and hashes in the order in which they are written. -/
def writes (replicationFactor : Int) (order : List String) : List (H × String) :=
  order.flatMap fun hostName => (virtualNodes hash replicationFactor hostName).map (·, hostName)

theorem mem_writes {order : List String} {e : H × String} :
    e ∈ writes hash replicationFactor order ↔
      e.2 ∈ order ∧ ∃ i : Nat, i < replicationFactor ∧ hash (label e.2 i) = e.1 := by
  simp only [writes, mem_flatMap, mem_map, ← mem_virtualNodes]
  constructor
  · rintro ⟨hostName, hmem, h, hh, rfl⟩
    exact ⟨hmem, hh⟩
  · rintro ⟨hmem, hh⟩
    exact ⟨e.2, hmem, e.1, hh, rfl⟩

end Labels

/-! ## The cache of virtual nodes -/

/-- What the cache holds was computed for that factor and host. -/
structure VirtualNodesCache {H : Type} (hash : String → H) where
  data : AList fun _ : Int => AList fun _ : String => List H
  sound : ∀ factor hashMap host hashes, data.lookup factor = some hashMap → hashMap.lookup host = some hashes →
    hashes = virtualNodes hash factor host

namespace VirtualNodesCache
variable {H : Type} {hash : String → H}

def new : VirtualNodesCache hash := ⟨∅, fun _ _ _ _ h => nomatch h⟩

def find (hc : VirtualNodesCache hash) (replicationFactor : Int) (host : String) : Option (List H) :=
  (hc.data.lookup replicationFactor).bind (·.lookup host)

def put (hc : VirtualNodesCache hash) (replicationFactor : Int) (host : String) : VirtualNodesCache hash where
  data :=
    let hm := (hc.data.lookup replicationFactor).getD ∅
    hc.data.insert replicationFactor (hm.insert host (virtualNodes hash replicationFactor host))
  sound := by
    intro factor hashMap h hashes hmap hhashes
    by_cases hf : factor = replicationFactor
    · subst hf
      rw [AList.lookup_insert, Option.some_inj] at hmap
      subst hmap
      by_cases hh : h = host
      · subst hh
        rw [AList.lookup_insert, Option.some_inj] at hhashes
        exact hhashes.symm
      · rw [AList.lookup_insert_ne hh] at hhashes
        cases hd : hc.data.lookup factor with
        | none => simp [hd] at hhashes
        | some hm => exact hc.sound factor hm h hashes hd (by simpa [hd] using hhashes)
    · rw [AList.lookup_insert_ne hf] at hmap
      exact hc.sound factor hashMap h hashes hmap hhashes

/-- No slice of a negative length can be made. -/
def setHashes (hc : VirtualNodesCache hash) (replicationFactor : Int) (host : String) :
    Option (List H × VirtualNodesCache hash) :=
  match hc.find replicationFactor host with
  | some hashes => some (hashes, hc)
  | none =>
    if replicationFactor < 0 then none
    else some (virtualNodes hash replicationFactor host, hc.put replicationFactor host)

def getHashes (hc : VirtualNodesCache hash) (replicationFactor : Int) (host : String) :
    Option (List H × VirtualNodesCache hash) :=
  match hc.find replicationFactor host with
  | some hashes => some (hashes, hc)
  | none => hc.setHashes replicationFactor host

theorem find_sound {hc : VirtualNodesCache hash} {host : String} {hashes : List H}
    (h : hc.find replicationFactor host = some hashes) : hashes = virtualNodes hash replicationFactor host := by
  obtain ⟨hm, hdata, hm'⟩ := Option.bind_eq_some_iff.1 h
  exact hc.sound _ hm _ _ hdata hm'

/-- Whatever the cache holds, the hashes are those of the host's virtual nodes. -/
theorem getHashes_eq {hc hc' : VirtualNodesCache hash} {host : String} {hashes : List H}
    (h : hc.getHashes replicationFactor host = some (hashes, hc')) :
    hashes = virtualNodes hash replicationFactor host := by
  unfold getHashes setHashes at h
  cases hf : hc.find replicationFactor host with
  | some found =>
    rw [hf] at h
    cases h
    exact find_sound hf
  | none =>
    simp only [hf] at h
    split at h
    · cases h
    · cases h
      rfl

theorem getHashes_isSome (hc : VirtualNodesCache hash) (h : 0 ≤ replicationFactor) (host : String) :
    ∃ hc', hc.getHashes replicationFactor host = some (virtualNodes hash replicationFactor host, hc') := by
  unfold getHashes setHashes
  cases hf : hc.find replicationFactor host with
  | some found => exact ⟨hc, by rw [find_sound hf]⟩
  | none => exact ⟨_, if_neg (Int.not_lt.2 h)⟩

end VirtualNodesCache

/-! ## The ring -/

/-- The sorted set lists the hashes that have a host. -/
structure Consistent (H : Type) [LinearOrder H] where
  hosts : AList fun _ : H => String
  sortedSet : List H
  loadMap : LoadMap
  replicationFactor : Int
  placed : ∀ h, h ∈ sortedSet ↔ h ∈ hosts

namespace Consistent
variable {H : Type} [LinearOrder H] {hash : String → H}

def addHost (c : Consistent H) (hostName : String) (hashes : List H) : Consistent H where
  hosts := hashes.foldl (fun m h => m.insert h hostName) c.hosts
  sortedSet := c.sortedSet ++ hashes
  loadMap := c.loadMap
  replicationFactor := c.replicationFactor
  placed := by
    intro h
    have hfold : ∀ (l : List H) (m : AList fun _ : H => String),
        h ∈ l.foldl (fun m h => m.insert h hostName) m ↔ h ∈ m ∨ h ∈ l := by
      intro l
      induction l with
      | nil => simp
      | cons a l ih =>
        intro m
        rw [foldl_cons, ih, AList.mem_insert, mem_cons]
        tauto
    rw [mem_append, c.placed, hfold]

/-- The loop over the load map's keys, and the sort behind it. -/
def build (replicationFactor : Int) : List String → Consistent H → VirtualNodesCache hash →
    Option (Consistent H × VirtualNodesCache hash)
  | [], c, cache =>
    some ({ c with
      sortedSet := c.sortedSet.insertionSort (· ≤ ·)
      placed := fun h => (mem_insertionSort _).trans (c.placed h) }, cache)
  | hostName :: order, c, cache =>
    match cache.getHashes replicationFactor hostName with
    | none => none
    | some (hashes, cache) => build replicationFactor order (c.addHost hostName hashes) cache

/-- `order` is the order in which the load map is traversed. -/
def newFromExisting (order : List String) (loadMap : LoadMap) (replicationFactor : Int)
    (cache : VirtualNodesCache hash) : Option (Consistent H × VirtualNodesCache hash) :=
  build replicationFactor order ⟨∅, [], loadMap, replicationFactor, by simp⟩ cache

def equal (c o : Option (Consistent H)) : Bool :=
  match c, o with
  | some c, some o =>
    if c.replicationFactor ≠ o.replicationFactor then false
    else if c.loadMap.keys.length ≠ o.loadMap.keys.length then false
    else c.loadMap.entries.all fun e =>
      match o.loadMap.lookup e.1 with
      | none => false
      | some ov => e.2.equal ov
  | none, none => true
  | _, _ => false

/-- The index of the first hash that is not below the key's. -/
def search (c : Consistent H) (key : H) : Nat :=
  let idx := c.sortedSet.findIdx (key ≤ ·)
  if idx ≥ c.sortedSet.length then 0 else idx

theorem search_lt (c : Consistent H) (key : H) (h : c.hosts.keys.length ≠ 0) : search c key < c.sortedSet.length := by
  unfold search
  dsimp only
  split
  · obtain ⟨a, ha⟩ := exists_mem_of_ne_nil _ (fun hnil => h (length_eq_zero_iff.2 hnil))
    exact length_pos_of_mem ((c.placed a).2 ha)
  · next hlt => exact Nat.lt_of_not_le hlt

def get (hash : String → H) (c : Consistent H) (key : String) : Except String String :=
  if h : c.hosts.keys.length = 0 then .error errNoHosts
  else
    let idx := search c (hash key)
    have : idx < c.sortedSet.length := search_lt c (hash key) h
    .ok ((c.hosts.lookup c.sortedSet[idx]).getD "")

/-! ## What a ring holds -/

/-- A ring that was built over `order`: it depends on the cache no more. -/
structure Built (hash : String → H) (order : List String) (loadMap : LoadMap) (replicationFactor : Int)
    (c : Consistent H) : Prop where
  hosts : c.hosts = collect (fun _ => True) Prod.fst Prod.snd (writes hash replicationFactor order)
  sortedSet : c.sortedSet = ((writes hash replicationFactor order).map Prod.fst).insertionSort (· ≤ ·)
  loadMap : c.loadMap = loadMap
  replicationFactor : c.replicationFactor = replicationFactor

section Build
variable {loadMap : LoadMap} {replicationFactor : Int} {order : List String} {c : Consistent H}
  {cache cache' : VirtualNodesCache hash}

theorem build_eq {c₀ : Consistent H} (h : build replicationFactor order c₀ cache = some (c, cache')) :
    c.hosts = (writes hash replicationFactor order).foldl (fun m e => m.insert e.1 e.2) c₀.hosts ∧
      c.sortedSet = (c₀.sortedSet ++ (writes hash replicationFactor order).map Prod.fst).insertionSort (· ≤ ·) ∧
      c.loadMap = c₀.loadMap ∧ c.replicationFactor = c₀.replicationFactor := by
  induction order generalizing c₀ cache with
  | nil =>
    cases h
    simp [writes]
  | cons hostName order ih =>
    unfold build at h
    cases hget : cache.getHashes replicationFactor hostName with
    | none => simp [hget] at h
    | some found =>
      obtain ⟨hashes, cache₁⟩ := found
      rw [hget] at h
      obtain rfl := VirtualNodesCache.getHashes_eq hget
      obtain ⟨hhosts, hset, hmap, hfactor⟩ := ih h
      refine ⟨hhosts.trans ?_, hset.trans ?_, hmap, hfactor⟩
      · simp [writes, addHost, foldl_map]
      · simp [writes, addHost, Function.comp_def]

theorem newFromExisting_built (h : newFromExisting order loadMap replicationFactor cache = some (c, cache')) :
    Built hash order loadMap replicationFactor c := by
  obtain ⟨hhosts, hset, hmap, hfactor⟩ := build_eq h
  exact ⟨by simpa [collect] using hhosts, by simpa using hset, hmap, hfactor⟩

/-- A ring is built unless the factor is negative. -/
theorem newFromExisting_isSome (h : 0 ≤ replicationFactor) (order : List String) (loadMap : LoadMap)
    (cache : VirtualNodesCache hash) :
    ∃ c cache', newFromExisting order loadMap replicationFactor cache = some (c, cache') := by
  unfold newFromExisting
  generalize (⟨∅, [], loadMap, replicationFactor, by simp⟩ : Consistent H) = c₀
  induction order generalizing c₀ cache with
  | nil => exact ⟨_, _, rfl⟩
  | cons hostName order ih =>
    obtain ⟨cache₁, hget⟩ := cache.getHashes_isSome h hostName
    unfold build
    rw [hget]
    exact ih _ _

end Build

/-! ## What a key resolves to -/

theorem get_eq (c : Consistent H) (key : String) :
    get hash c key = match c.sortedSet[search c (hash key)]? with
      | none => .error errNoHosts
      | some h => .ok ((c.hosts.lookup h).getD "") := by
  unfold get
  split
  · next h =>
    have hempty : c.sortedSet = [] := by
      refine eq_nil_iff_forall_not_mem.2 fun a ha => ?_
      have : a ∈ c.hosts.keys := (c.placed a).1 ha
      rw [length_eq_zero_iff.1 h] at this
      cases this
    simp [hempty]
  · next h => rw [getElem?_eq_getElem (search_lt c (hash key) h)]

theorem get_congr {c c' : Consistent H} (hset : c.sortedSet = c'.sortedSet) (hhosts : Same c.hosts c'.hosts)
    (key : String) : get hash c key = get hash c' key := by
  have hsearch : search c (hash key) = search c' (hash key) := by
    unfold search
    rw [hset]
  rw [get_eq, get_eq, hsearch, hset]
  simp only [hhosts _]

theorem getElem?_search {c : Consistent H} (hsorted : c.sortedSet.Pairwise (· ≤ ·)) {h : H} (hmem : h ∈ c.sortedSet) :
    c.sortedSet[search c h]? = some h := by
  have hlt : c.sortedSet.findIdx (h ≤ ·) < c.sortedSet.length :=
    findIdx_lt_length_of_exists ⟨h, hmem, by simp⟩
  have hsearch : search c h = c.sortedSet.findIdx (h ≤ ·) := if_neg (Nat.not_le.2 hlt)
  rw [hsearch, getElem?_eq_getElem hlt, Option.some_inj]
  have hge : h ≤ c.sortedSet[c.sortedSet.findIdx (h ≤ ·)] := by simpa using findIdx_getElem (w := hlt)
  obtain ⟨k, hk, hkey⟩ := mem_iff_getElem.1 hmem
  refine le_antisymm (le_of_le_of_eq ?_ hkey) hge
  rcases Nat.lt_or_ge k (c.sortedSet.findIdx (h ≤ ·)) with hbefore | hafter
  · exact absurd hkey.ge (by simpa using not_of_lt_findIdx hbefore)
  · rcases Nat.eq_or_lt_of_le hafter with heq | hless
    · simp only [← heq, le_refl]
    · exact pairwise_iff_getElem.1 hsorted _ _ hlt hk hless

/-! ## Rings of one load map -/

/-- A ring of a load map, built in some order and with some cache. -/
def RingOf (hash : String → H) (loadMap : LoadMap) (replicationFactor : Int) (c : Consistent H) : Prop :=
  ∃ (order : List String) (cache cache' : VirtualNodesCache hash), order.Perm loadMap.keys ∧
    newFromExisting order loadMap replicationFactor cache = some (c, cache')

end Consistent

/-- No two hosts of the load map share a label. -/
def LabelsApart (loadMap : LoadMap) (replicationFactor : Int) : Prop :=
  ∀ a ∈ loadMap.keys, ∀ b ∈ loadMap.keys, ∀ i j : Nat, i < replicationFactor → j < replicationFactor →
    label a i = label b j → a = b

instance (loadMap : LoadMap) (replicationFactor : Int) : Decidable (LabelsApart loadMap replicationFactor) :=
  decidable_of_iff (∀ a ∈ loadMap.keys, ∀ b ∈ loadMap.keys, ∀ i < replicationFactor.toNat,
      ∀ j < replicationFactor.toNat, label a i = label b j → a = b)
    ⟨fun h a ha b hb i j hi hj => h a ha b hb i (Int.lt_toNat.2 hi) j (Int.lt_toNat.2 hj),
      fun h a ha b hb i hi j hj => h a ha b hb i j (Int.lt_toNat.1 hi) (Int.lt_toNat.1 hj)⟩

/-- The labels of the load map's hosts have different hashes. -/
def CollisionFree {H : Type} (hash : String → H) (loadMap : LoadMap) (replicationFactor : Int) : Prop :=
  ∀ a ∈ loadMap.keys, ∀ b ∈ loadMap.keys, ∀ i j : Nat, i < replicationFactor → j < replicationFactor →
    hash (label a i) = hash (label b j) → label a i = label b j

namespace Consistent
variable {H : Type} [LinearOrder H] {hash : String → H} {loadMap loadMap' : LoadMap} {replicationFactor : Int}
  {order order' : List String} {c c' : Consistent H}

theorem Built.get_eq_of_apart (hc : Built hash order loadMap replicationFactor c)
    (hc' : Built hash order' loadMap' replicationFactor c') (horder : order.Perm loadMap.keys)
    (hperm : order'.Perm order) (hfree : CollisionFree hash loadMap replicationFactor)
    (hapart : LabelsApart loadMap replicationFactor) (key : String) : get hash c key = get hash c' key := by
  have hwrites : (writes hash replicationFactor order').Perm (writes hash replicationFactor order) :=
    hperm.flatMap_right _
  refine get_congr ?_ ?_ key
  · rw [hc.sortedSet, hc'.sortedSet]
    refine Perm.eq_of_pairwise (fun a b _ _ => le_antisymm) (pairwise_insertionSort _ _)
      (pairwise_insertionSort _ _) ?_
    exact (perm_insertionSort _ _).trans ((hwrites.symm.map _).trans (perm_insertionSort _ _).symm)
  · rw [hc.hosts, hc'.hosts]
    refine (same_collect_of_perm (fun e he e' he' heq => ?_) hwrites).symm
    obtain ⟨hmem, i, hi, hlabel⟩ := (mem_writes _).1 he
    obtain ⟨hmem', j, hj, hlabel'⟩ := (mem_writes _).1 he'
    have hkeys := horder.mem_iff.1 hmem
    have hkeys' := horder.mem_iff.1 hmem'
    refine hapart _ hkeys _ hkeys' i j hi hj (hfree _ hkeys _ hkeys' i j hi hj ?_)
    rw [hlabel, hlabel', heq]

/-- The host that is written last gets all its hashes. -/
theorem Built.get_of_last {last : String} {i : Nat} (hi : i < replicationFactor)
    (hc : Built hash (order ++ [last]) loadMap replicationFactor c) : get hash c (label last i) = .ok last := by
  have hmem : (hash (label last i), last) ∈ writes hash replicationFactor [last] :=
    (mem_writes _).2 ⟨mem_singleton_self _, i, hi, rfl⟩
  have hwrites : writes hash replicationFactor (order ++ [last]) =
      writes hash replicationFactor order ++ writes hash replicationFactor [last] := flatMap_append
  have hset : hash (label last i) ∈ c.sortedSet := by
    rw [hc.sortedSet, hwrites]
    exact (mem_insertionSort _).2 (mem_map.2 ⟨_, mem_append_right _ hmem, rfl⟩)
  have hsorted : c.sortedSet.Pairwise (· ≤ ·) := by
    rw [hc.sortedSet]
    exact pairwise_insertionSort _ _
  have howner : c.hosts.lookup (hash (label last i)) = some last := by
    rw [hc.hosts, hwrites]
    refine lookup_collect_append ⟨_, hmem, trivial, rfl⟩ fun e he _ _ => ?_
    exact mem_singleton.1 ((mem_writes _).1 he).1
  rw [get_eq, getElem?_search hsorted hset]
  simp [howner]

theorem perm_keys_of_equal (h : equal (some c) (some c') = true) :
    c.replicationFactor = c'.replicationFactor ∧ c'.loadMap.keys.Perm c.loadMap.keys := by
  simp only [equal] at h
  split at h
  · cases h
  · next hfactor =>
    split at h
    · cases h
    · next hlen =>
      refine ⟨Classical.not_not.1 hfactor, ?_⟩
      have hsub : c.loadMap.keys ⊆ c'.loadMap.keys := by
        intro k hk
        obtain ⟨v, hv⟩ := Option.isSome_iff_exists.1 (AList.lookup_isSome.2 hk)
        have he := all_eq_true.1 h ⟨k, v⟩ (AList.mem_lookup_iff.1 hv)
        refine AList.lookup_isSome.1 ?_
        cases hl : c'.loadMap.lookup k with
        | none => simp [hl] at he
        | some ov => rfl
      exact ((subperm_of_subset c.loadMap.keys_nodup hsub).perm_of_length_le
        (Nat.le_of_eq (Classical.not_not.1 hlen).symm)).symm

theorem exists_order_last {a : String} (ha : a ∈ loadMap.keys) : ∃ rest, (rest ++ [a]).Perm loadMap.keys :=
  ⟨loadMap.keys.erase a, (perm_append_singleton _ _).trans (perm_cons_erase ha).symm⟩

/-- The rings of a load map, and the rings that are equal to them, resolve every key alike exactly when no two hosts
share the label of a virtual node. -/
theorem routing_unordered_iff (hash : String → H) (loadMap : LoadMap) (replicationFactor : Int)
    (hfree : CollisionFree hash loadMap replicationFactor) :
    ((∀ c c', RingOf hash loadMap replicationFactor c → RingOf hash loadMap replicationFactor c' →
        ∀ key, get hash c key = get hash c' key) ∧
      ∀ loadMap' replicationFactor' c c', RingOf hash loadMap replicationFactor c →
        RingOf hash loadMap' replicationFactor' c' → equal (some c) (some c') = true →
          ∀ key, get hash c key = get hash c' key) ↔
      LabelsApart loadMap replicationFactor := by
  constructor
  · rintro ⟨hsame, -⟩ a ha b hb i j hi hj hlabel
    have hfactor : 0 ≤ replicationFactor := by omega
    obtain ⟨rest, hrest⟩ := exists_order_last ha
    obtain ⟨rest', hrest'⟩ := exists_order_last hb
    obtain ⟨c, cache, hc⟩ := newFromExisting_isSome hfactor (rest ++ [a]) loadMap (.new : VirtualNodesCache hash)
    obtain ⟨c', cache', hc'⟩ := newFromExisting_isSome hfactor (rest' ++ [b]) loadMap (.new : VirtualNodesCache hash)
    have hget := hsame c c' ⟨_, _, _, hrest, hc⟩ ⟨_, _, _, hrest', hc'⟩ (label a i)
    rw [(newFromExisting_built hc).get_of_last hi, hlabel, (newFromExisting_built hc').get_of_last hj] at hget
    exact Except.ok.inj hget
  · intro hapart
    constructor
    · rintro c c' ⟨order, cache, out, horder, hc⟩ ⟨order', cache', out', horder', hc'⟩ key
      exact (newFromExisting_built hc).get_eq_of_apart (newFromExisting_built hc') horder
        (horder'.trans horder.symm) hfree hapart key
    · rintro loadMap' replicationFactor' c c' ⟨order, cache, out, horder, hc⟩ ⟨order', cache', out', horder', hc'⟩
        hequal key
      have hbuilt := newFromExisting_built hc
      have hbuilt' := newFromExisting_built hc'
      obtain ⟨hfactor, hkeys⟩ := perm_keys_of_equal hequal
      rw [hbuilt.replicationFactor, hbuilt'.replicationFactor] at hfactor
      rw [hbuilt.loadMap, hbuilt'.loadMap] at hkeys
      subst hfactor
      exact hbuilt.get_eq_of_apart hbuilt' horder (horder'.trans (hkeys.trans horder.symm)) hfree hapart key

/-- Two hosts at one address, with the ports 5000 and 50001. -/
def ports : LoadMap :=
  AList.insert "10.0.0.1:5000" ⟨"10.0.0.1:5000", 5000, 0, "a"⟩
    (.singleton "10.0.0.1:50001" ⟨"10.0.0.1:50001", 50001, 0, "b"⟩)

/-- With ten virtual nodes for a host the labels are apart. -/
theorem routing_unordered_iff_ports : LabelsApart ports 10 ∧ ∀ c c', RingOf id ports 10 c → RingOf id ports 10 c' →
    ∀ key, get id c key = get id c' key := by
  have hapart : LabelsApart ports 10 := by decide +kernel
  exact ⟨hapart, ((routing_unordered_iff id ports 10 fun _ _ _ _ _ _ _ _ h => h).2 hapart).1⟩

/-- With eleven, node 10 of the one is node 0 of the other. -/
theorem shared_label : ∃ c c', RingOf id ports 11 c ∧ RingOf id ports 11 c' ∧
    get id c "10.0.0.1:500010" = .ok "10.0.0.1:5000" ∧ get id c' "10.0.0.1:500010" = .ok "10.0.0.1:50001" := by
  have hfactor : (0 : Int) ≤ 11 := by decide
  obtain ⟨c, cache, hc⟩ := newFromExisting_isSome hfactor (["10.0.0.1:50001"] ++ ["10.0.0.1:5000"]) ports
    (.new : VirtualNodesCache (id : String → String))
  obtain ⟨c', cache', hc'⟩ := newFromExisting_isSome hfactor (["10.0.0.1:5000"] ++ ["10.0.0.1:50001"]) ports
    (.new : VirtualNodesCache (id : String → String))
  have hnode : label "10.0.0.1:5000" 10 = "10.0.0.1:500010" := by decide +kernel
  have hnode' : label "10.0.0.1:50001" 0 = "10.0.0.1:500010" := by decide +kernel
  refine ⟨c, c', ⟨_, _, _, by decide, hc⟩, ⟨_, _, _, by decide, hc'⟩, ?_, ?_⟩
  · rw [← hnode]
    exact (newFromExisting_built hc).get_of_last (by decide)
  · rw [← hnode']
    exact (newFromExisting_built hc').get_of_last (by decide)

end Consistent
end Dapr.Hashing
