import Mathlib.Data.List.Infix
import Mathlib.Algebra.Order.BigOperators.Group.List
import Mathlib.Algebra.GroupWithZero.Nat
import Dapr.Lib.Joined
/-!
# Listing instances

The ids of an app's workflows are read off the keys of their metadata rows. The keys are selected
by a pattern, in which the names of app and namespace are not escaped, and cut at the separator,
which ids may contain.
-/

namespace Dapr.Workflow

open Lib.Joined List

/-! ## Keys -/

abbrev Chars := List Char

abbrev separator : Chars := ['|', '|']

/-- Whether a key matches a pattern: `%` is any text, `_` any one character. -/
def like : Chars → Chars → Bool
  | [], s => s.isEmpty
  | c :: p, s =>
    if c = '%' then s.tails.any (like p)
    else match s with
      | [] => false
      | d :: s => (c = '_' || c = d) && like p s

/-- Every text matches itself as a pattern. -/
theorem like_append_left (x : Chars) {p s : Chars} (h : like p s = true) : like (x ++ p) (x ++ s) = true := by
  induction x with
  | nil => exact h
  | cons c x ih =>
    rw [cons_append, cons_append, like]
    split
    · exact any_eq_true.2 ⟨x ++ s, (mem_tails _ _).2 (suffix_cons _ _), ih⟩
    · simpa using ih

def workflowActorType (nspace appID : Chars) : Chars :=
  "dapr.internal.".toList ++ nspace ++ ".".toList ++ appID ++ ".workflow".toList

def workflowKey (nspace appID id name : Chars) : Chars :=
  appID ++ separator ++ (workflowActorType nspace appID ++ separator ++ (id ++ separator ++ name))

def metadataKey (nspace appID id : Chars) : Chars := workflowKey nspace appID id "metadata".toList

def listPattern (nspace appID : Chars) : Chars := workflowKey nspace appID ['%'] "metadata".toList

theorem like_metadataKey (nspace appID id : Chars) :
    like (listPattern nspace appID) (metadataKey nspace appID id) = true := by
  have hrest : like ('%' :: (separator ++ "metadata".toList)) (id ++ (separator ++ "metadata".toList)) = true :=
    any_eq_true.2 ⟨_, (mem_tails _ _).2 (suffix_append _ _), by decide⟩
  have h := like_append_left (appID ++ separator ++ workflowActorType nspace appID ++ separator) hrest
  simpa [listPattern, metadataKey, workflowKey] using h

/-! ## Listing -/

structure KeysLikeRequest (τ : Type) where
  pattern : Chars
  continuationToken : Option τ
  pageSize : Option UInt32

structure KeysLikeResponse (τ : Type) where
  keys : List Chars
  continuationToken : Option τ

/-- The state store for actors; not every store can list keys. -/
structure ActorStore (τ : Type) where
  typeName : String
  keysLike : Option (KeysLikeRequest τ → Except String (KeysLikeResponse τ))

structure ListOptions (τ : Type) where
  store : Option (ActorStore τ)
  nspace : Chars
  appID : Chars
  pageSize : Option UInt32
  continuationToken : Option τ

structure ListInstanceIDsResult (τ : Type) where
  keys : List Chars
  continuationToken : Option τ
  deriving DecidableEq

def instanceIDOf (key : Chars) : Except String Chars :=
  match split '|' key with
  | [_, _, id, _] => .ok id
  | _ => .error ("invalid key format: " ++ String.ofList key)

def listInstanceIDs {τ : Type} (opts : ListOptions τ) : Except String (ListInstanceIDsResult τ) :=
  match opts.store with
  | none => .error "no state store with actor support found"
  | some store =>
    match store.keysLike with
    | none => .error ("state store " ++ store.typeName ++ " does not support listing keys")
    | some keysLike =>
      match keysLike ⟨listPattern opts.nspace opts.appID, opts.continuationToken, opts.pageSize⟩ with
      | .error err => .error err
      | .ok resp =>
        match resp.keys.mapM instanceIDOf with
        | .error err => .error err
        | .ok keys => .ok ⟨keys, resp.continuationToken⟩

section Pages
variable {τ : Type} (opts : ListOptions τ)

/-- What is listed from a token on, page by page. -/
inductive Listed : Option τ → List Chars → Prop where
  | last {token : Option τ} {ids : List Chars}
      (h : listInstanceIDs { opts with continuationToken := token } = .ok ⟨ids, none⟩) : Listed token ids
  | more {token : Option τ} {ids rest : List Chars} {next : τ}
      (h : listInstanceIDs { opts with continuationToken := token } = .ok ⟨ids, some next⟩)
      (hrest : Listed (some next) rest) : Listed token (ids ++ rest)

/-- The keys a store enumerates from a token on. -/
inductive Enumerates (keysLike : KeysLikeRequest τ → Except String (KeysLikeResponse τ)) (pattern : Chars)
    (pageSize : Option UInt32) : Option τ → List Chars → Prop where
  | last {token : Option τ} {keys : List Chars} (h : keysLike ⟨pattern, token, pageSize⟩ = .ok ⟨keys, none⟩) :
      Enumerates keysLike pattern pageSize token keys
  | more {token : Option τ} {keys rest : List Chars} {next : τ}
      (h : keysLike ⟨pattern, token, pageSize⟩ = .ok ⟨keys, some next⟩)
      (hrest : Enumerates keysLike pattern pageSize (some next) rest) :
      Enumerates keysLike pattern pageSize token (keys ++ rest)

variable {opts} {store : ActorStore τ} {keysLike : KeysLikeRequest τ → Except String (KeysLikeResponse τ)}
  {token : Option τ} {keys ids : List Chars}

/-- One page. -/
theorem listInstanceIDs_ok {resp : KeysLikeResponse τ}
    (hstore : opts.store = some store) (hks : store.keysLike = some keysLike)
    (h : keysLike ⟨listPattern opts.nspace opts.appID, token, opts.pageSize⟩ = .ok resp) (ids : List Chars) (next : Option τ) :
    listInstanceIDs { opts with continuationToken := token } = .ok ⟨ids, next⟩ ↔
      resp.keys.mapM instanceIDOf = .ok ids ∧ resp.continuationToken = next := by
  simp only [listInstanceIDs, hstore, hks, h]
  split <;> simp_all

/-- The pages together list the ids of all keys. -/
theorem listed_iff (hstore : opts.store = some store) (hks : store.keysLike = some keysLike)
    (h : Enumerates keysLike (listPattern opts.nspace opts.appID) opts.pageSize token keys) :
    Listed opts token ids ↔ keys.mapM instanceIDOf = .ok ids := by
  induction h generalizing ids with
  | last h =>
    have hpage := listInstanceIDs_ok hstore hks h
    constructor
    · rintro (h' | ⟨h', -⟩)
      · exact ((hpage _ _).1 h').1
      · cases ((hpage _ _).1 h').2
    · exact fun hids => .last ((hpage _ _).2 ⟨hids, rfl⟩)
  | more h hrest ih =>
    have hpage := listInstanceIDs_ok hstore hks h
    rw [mapM_append]
    constructor
    · rintro (h' | ⟨h', hrest'⟩)
      · cases ((hpage _ _).1 h').2
      · obtain ⟨hfirst, hnext⟩ := (hpage _ _).1 h'
        cases hnext
        rw [hfirst, ih.1 hrest']
        rfl
    · intro hids
      cases hfirst : List.mapM instanceIDOf _ with
      | error e => rw [hfirst] at hids; cases hids
      | ok first =>
        cases hlast : List.mapM instanceIDOf _ with
        | error e => rw [hfirst, hlast] at hids; cases hids
        | ok last =>
          rw [hfirst, hlast] at hids
          cases hids
          exact .more ((hpage _ _).2 ⟨hfirst, rfl⟩) (ih.2 hlast)

end Pages

/-! ## What is read back -/

section Fields
variable {nspace appID id i : Chars}

/-- The actor type is one field, also with what a separator may leave of the app id before it. -/
theorem not_infix_actorType (happ : ¬ separator <:+: appID) (hns : ¬ separator <:+: nspace) :
    ¬ separator <:+: '|' :: (workflowActorType nspace appID ++ ['|']) := by
  intro h
  have hdots : '|' :: (workflowActorType nspace appID ++ ['|']) = "|dapr".toList ++ '.' :: ("internal".toList ++ '.' ::
      (nspace ++ '.' :: (appID ++ '.' :: "workflow|".toList))) := by
    unfold workflowActorType
    simp only [append_assoc, String.reduceToList, cons_append, nil_append]
  rw [hdots] at h
  have hdot : '.' ≠ '|' := by decide
  rcases infix_of_append_cons hdot h with h | h
  · exact absurd h (by decide)
  rcases infix_of_append_cons hdot h with h | h
  · exact absurd h (by decide)
  rcases infix_of_append_cons hdot h with h | h
  · exact hns h
  rcases infix_of_append_cons hdot h with h | h
  · exact happ h
  · exact absurd h (by decide)

theorem workflowKey_eq (nspace appID id name : Chars) : workflowKey nspace appID id name =
    appID ++ '|' :: '|' :: (workflowActorType nspace appID ++ '|' :: '|' :: (id ++ '|' :: '|' :: name)) := by
  simp [workflowKey]

/-- The first two fields of a key, and the rest. -/
theorem split_workflowKey (happ : ¬ separator <:+: appID) (hns : ¬ separator <:+: nspace) (id name : Chars) :
    ∃ a t, split '|' (workflowKey nspace appID id name) = a :: t :: split '|' (id ++ '|' :: '|' :: name) := by
  have htype := not_infix_actorType happ hns
  rw [workflowKey_eq]
  by_cases hend : ['|', '|'] <:+: appID ++ ['|']
  · -- the separator behind the app id starts one character early
    obtain ⟨app', rfl⟩ := exists_concat hend happ
    refine ⟨app', '|' :: workflowActorType nspace (app' ++ ['|']), ?_⟩
    rw [append_assoc, singleton_append, split_append happ, ← cons_append, split_append htype]
  · refine ⟨appID, workflowActorType nspace appID, ?_⟩
    rw [split_append hend, split_append fun h => htype (h.trans (suffix_cons _ _).isInfix)]

theorem instanceIDOf_metadataKey (happ : ¬ separator <:+: appID) (hns : ¬ separator <:+: nspace)
    (hid : ¬ separator <:+: id ++ ['|']) : instanceIDOf (metadataKey nspace appID id) = .ok id := by
  obtain ⟨a, t, hsplit⟩ := split_workflowKey happ hns id "metadata".toList
  rw [split_append hid, split_of_no_symbol (x := "metadata".toList) (by simp)] at hsplit
  rw [instanceIDOf, metadataKey, hsplit]

/-- An id that is read from a key is the right one, or too short. -/
theorem of_instanceIDOf (h : instanceIDOf (metadataKey nspace appID id) = .ok i) :
    (¬ separator <:+: appID ∧ ¬ separator <:+: nspace) ∧
      (¬ separator <:+: id ++ ['|'] ∧ i = id ∨ i.length < id.length) := by
  obtain ⟨a, t, m, hfour⟩ : ∃ a t m, split '|' (metadataKey nspace appID id) = [a, t, i, m] := by
    unfold instanceIDOf at h
    split at h
    · cases h
      exact ⟨_, _, _, ‹_›⟩
    · cases h
  have hparts : (split '|' appID).length + ((split '|' (workflowActorType nspace appID)).length +
      ((split '|' id).length + 1)) ≤ 4 := by
    have h₁ := length_split_sep (p := '|') id "metadata".toList
    have h₂ := length_split_sep (p := '|') (workflowActorType nspace appID) (id ++ '|' :: '|' :: "metadata".toList)
    have h₃ := length_split_sep (p := '|') appID
      (workflowActorType nspace appID ++ '|' :: '|' :: (id ++ '|' :: '|' :: "metadata".toList))
    have hmeta := one_le_length_split (p := '|') "metadata".toList
    have hlen : (split '|' (appID ++ '|' :: '|' :: (workflowActorType nspace appID ++ '|' :: '|' ::
        (id ++ '|' :: '|' :: "metadata".toList)))).length = 4 := by
      rw [← workflowKey_eq, ← metadataKey, hfour]
      rfl
    omega
  have happ₁ := one_le_length_split (p := '|') appID
  have htype₁ := one_le_length_split (p := '|') (workflowActorType nspace appID)
  have hid₁ := one_le_length_split (p := '|') id
  have happ : ¬ separator <:+: appID := fun hi => by
    have := two_le_length_split hi
    omega
  have hns : ¬ separator <:+: nspace := fun hi => by
    have hin : nspace <:+: workflowActorType nspace appID := by
      unfold workflowActorType
      exact ⟨"dapr.internal.".toList, ".".toList ++ appID ++ ".workflow".toList, by simp only [append_assoc]⟩
    have := two_le_length_split (hi.trans hin)
    omega
  have hidsep : ¬ separator <:+: id := fun hi => by
    have := two_le_length_split hi
    omega
  refine ⟨⟨happ, hns⟩, ?_⟩
  by_cases hend : separator <:+: id ++ ['|']
  · obtain ⟨id', rfl⟩ := exists_concat hend hidsep
    obtain ⟨a', t', hsplit⟩ := split_workflowKey happ hns (id' ++ ['|']) "metadata".toList
    rw [append_assoc, singleton_append, split_append hidsep] at hsplit
    have heq := hfour.symm.trans hsplit
    simp only [List.cons.injEq] at heq
    exact .inr (by simp [heq.2.2.1])
  · rw [instanceIDOf_metadataKey happ hns hend] at h
    exact .inl ⟨hend, (Except.ok.inj h).symm⟩

end Fields

/-- The rows that a store holds besides the metadata of an app's workflows do not match the pattern;
no name holds a separator; no id holds one or ends with half of one. -/
structure Listable (nspace appID : Chars) (stored others : List Chars) : Prop where
  others : ∀ key ∈ others, like (listPattern nspace appID) key = false
  names : stored ≠ [] → ¬ separator <:+: appID ∧ ¬ separator <:+: nspace
  ids : ∀ id ∈ stored, ¬ separator <:+: id ++ ['|']

/-- Where no id got longer and as much was read as was stored, no id got shorter. -/
theorem read_back_of_length {l l' : List Chars}
    (h : Forall₂ (fun id i : Chars => ¬ separator <:+: id ++ ['|'] ∧ i = id ∨ i.length < id.length) l l') :
    (l'.map List.length).sum ≤ (l.map List.length).sum ∧
      ((l.map List.length).sum ≤ (l'.map List.length).sum → ∀ id ∈ l, ¬ separator <:+: id ++ ['|']) := by
  induction h with
  | nil => simp
  | cons hid _ ih =>
    simp only [map_cons, sum_cons, forall_mem_cons]
    rcases hid with ⟨hclean, rfl⟩ | hlt
    · exact ⟨by omega, fun hle => ⟨hclean, ih.2 (by omega)⟩⟩
    · exact ⟨by omega, fun hle => by omega⟩

/-- All pages together list the ids of the app's stored workflows, each once, exactly if no other
row matches the pattern and all ids can be read back. -/
theorem listing_exact_iff {τ : Type} (typeName : String) (nspace appID : Chars) (pageSize : Option UInt32)
    (keysLike : KeysLikeRequest τ → Except String (KeysLikeResponse τ)) (stored others keys : List Chars)
    (hstored : stored.Nodup) (hkeys : Enumerates keysLike (listPattern nspace appID) pageSize none keys)
    (hmatch : keys.Perm ((stored.map (metadataKey nspace appID) ++ others).filter (like (listPattern nspace appID)))) :
    (∃ ids, Listed ⟨some ⟨typeName, some keysLike⟩, nspace, appID, pageSize, none⟩ none ids ∧ ids.Nodup ∧
      ∀ id, id ∈ ids ↔ id ∈ stored) ↔ Listable nspace appID stored others := by
  have hlisted : ∀ ids, Listed ⟨some ⟨typeName, some keysLike⟩, nspace, appID, pageSize, none⟩ none ids ↔
      Forall₂ (fun key id => instanceIDOf key = .ok id) keys ids :=
    fun ids => (listed_iff rfl rfl hkeys).trans mapM_ok_iff
  have hall : (stored.map (metadataKey nspace appID)).filter (like (listPattern nspace appID)) =
      stored.map (metadataKey nspace appID) :=
    filter_eq_self.2 (by simp [like_metadataKey])
  rw [filter_append, hall] at hmatch
  constructor
  · rintro ⟨ids, hids, hnodup, hmem⟩
    have hperm : ids.Perm stored := (perm_ext_iff_of_nodup hnodup hstored).2 hmem
    obtain ⟨ids', hread, hperm'⟩ := perm_comp_forall₂ hmatch.symm ((hlisted ids).1 hids)
    have hlen := hread.length_eq.trans (hperm'.trans hperm).length_eq
    rw [length_append, length_map] at hlen
    have hnone : others.filter (like (listPattern nspace appID)) = [] :=
      eq_nil_of_length_eq_zero (by omega)
    rw [hnone, append_nil, List.forall₂_map_left_iff] at hread
    have hsum := ((hperm'.trans hperm).map List.length).sum_eq
    refine ⟨by simpa using hnone, fun hne => ?_, ?_⟩
    · obtain ⟨id, rest, rfl⟩ := exists_cons_of_ne_nil hne
      obtain ⟨i, _, hi, -, -⟩ := List.forall₂_cons_left_iff.1 hread
      exact (of_instanceIDOf hi).1
    · exact (read_back_of_length (hread.imp fun _ _ hi => (of_instanceIDOf hi).2)).2 hsum.ge
  · rintro ⟨hothers, hnames, hids⟩
    have hnone : others.filter (like (listPattern nspace appID)) = [] := by simpa using hothers
    rw [hnone, append_nil] at hmatch
    have hread : Forall₂ (fun key id => instanceIDOf key = .ok id)
        (stored.map (metadataKey nspace appID)) stored := by
      rw [List.forall₂_map_left_iff, List.forall₂_same]
      intro id hid
      obtain ⟨happ, hns⟩ := hnames (ne_nil_of_mem hid)
      exact instanceIDOf_metadataKey happ hns (hids id hid)
    obtain ⟨ids, hids', hperm⟩ := perm_comp_forall₂ hmatch hread
    exact ⟨ids, (hlisted ids).2 hids', hperm.symm.nodup hstored, fun id => hperm.mem_iff⟩

/-- A store that answers with all keys on one page. -/
def onePage (keys : List Chars) (req : KeysLikeRequest Unit) : Except String (KeysLikeResponse Unit) :=
  .ok ⟨keys.filter (like req.pattern), none⟩

def listOnePage (appID : String) (keys : List Chars) : Except String (ListInstanceIDsResult Unit) :=
  listInstanceIDs ⟨some ⟨"redis", some (onePage keys)⟩, "default".toList, appID.toList, none, none⟩

/-- Two workflows are listed, and a row of the history of one is not. -/
theorem listing_exact_iff_shop :
    ∃ ids, Listed ⟨some ⟨"redis", some (onePage ([metadataKey "default".toList "shop".toList "a:1".toList,
        metadataKey "default".toList "shop".toList "b".toList] ++
        [workflowKey "default".toList "shop".toList "b".toList "history-000000".toList]))⟩,
        "default".toList, "shop".toList, none, none⟩ none ids ∧ ids.Nodup ∧
      ∀ id, id ∈ ids ↔ id ∈ ["a:1".toList, "b".toList] := by
  refine (listing_exact_iff "redis" _ _ none _ ["a:1".toList, "b".toList] _ _ (by decide +kernel) (.last rfl)
    (.refl _)).2 ?_
  exact ⟨by decide +kernel, by decide +kernel, by decide +kernel⟩

/-- The workflow of another app is listed, one with a separator in its id lets the listing fail, and
of one that ends with half a separator the id is cut. -/
theorem listing_of_other_app :
    listOnePage "order_svc" [metadataKey "default".toList "order-svc".toList "b".toList] = .ok ⟨["b".toList], none⟩ ∧
    listOnePage "shop" [metadataKey "default".toList "shop".toList "a||b".toList] =
      .error "invalid key format: shop||dapr.internal.default.shop.workflow||a||b||metadata" ∧
    listOnePage "shop" [metadataKey "default".toList "shop".toList "a|".toList] = .ok ⟨["a".toList], none⟩ := by
  decide +kernel

end Dapr.Workflow
