import Mathlib.Data.List.AList
import Dapr.Lib.Keyed
import Dapr.Lib.Runs
/-!
# Application subscriptions of the component store

Subscriptions come from the application itself (programmatic) or from resources (declarative). Several may be
for one topic of a pubsub, of which one is started: the last programmatic one, or else the first declarative one
(`chosen`). The store lists the subscriptions of a pubsub to start (`listSubscriptionsAppByPubSub`), one for each
topic.
-/

namespace Dapr.Subscriber

open Lib.Keyed (lookup)
open Lib.Runs (pairwise_concat)

/-- `route` is everything else of a subscription. -/
structure Subscription (ρ : Type) where
  pubsubName : String
  topic : String
  route : ρ
  deriving DecidableEq, Repr

/-- Programmatic subscriptions have no name. -/
structure NamedSubscription (ρ : Type) where
  name : Option String
  sub : Subscription ρ
  deriving DecidableEq, Repr

structure DeclarativeSubscription (ρ : Type) where
  name : String
  sub : Subscription ρ
  deriving DecidableEq, Repr

structure PubSubItem where
  scopedSubscriptions : List String
  allowedTopics : List String
  protectedTopics : List String
  deriving DecidableEq, Repr

variable {ρ : Type}

def DeclarativeSubscription.named (d : DeclarativeSubscription ρ) : NamedSubscription ρ := ⟨some d.name, d.sub⟩

def NamedSubscription.topic (n : NamedSubscription ρ) : String := n.sub.topic

@[simp] theorem NamedSubscription.topic_mk (name : Option String) (sub : Subscription ρ) :
    NamedSubscription.topic ⟨name, sub⟩ = sub.topic := rfl

def isOperationAllowed (topic : String) (pubSub : PubSubItem) (scopedTopics : List String) : Bool :=
  if pubSub.allowedTopics ≠ [] ∧ topic ∉ pubSub.allowedTopics then false
  else if topic ∉ pubSub.protectedTopics ∧ scopedTopics = [] then true
  else topic ∈ scopedTopics

def PubSubItem.allows (ps : PubSubItem) (topic : String) : Bool := isOperationAllowed topic ps ps.scopedSubscriptions

/-- The names of declarative subscriptions are the keys of a map, whose order is kept. -/
structure Store (ρ : Type) where
  pubsubs : AList fun _ : String => PubSubItem
  programmatics : List (Subscription ρ)
  declaratives : List (DeclarativeSubscription ρ)
  nodup : (declaratives.map (·.name)).Nodup

def Store.empty : Store ρ := ⟨∅, [], [], List.nodup_nil⟩

def Store.addPubSub (store : Store ρ) (pubsubName : String) (ps : PubSubItem) : Store ρ :=
  { store with pubsubs := store.pubsubs.insert pubsubName ps }

def Store.deletePubSub (store : Store ρ) (pubsubName : String) : Store ρ :=
  { store with pubsubs := store.pubsubs.erase pubsubName }

def Store.setProgrammaticSubscriptions (store : Store ρ) (programmatics : List (Subscription ρ)) : Store ρ :=
  { store with programmatics }

theorem nodup_filter {l : List (DeclarativeSubscription ρ)} (h : (l.map (·.name)).Nodup) (name : String) :
    ((l.filter (·.name ≠ name)).map (·.name)).Nodup :=
  h.sublist (List.filter_sublist.map _)

def Store.addDeclarativeSubscription (store : Store ρ) (d : DeclarativeSubscription ρ) : Store ρ where
  pubsubs := store.pubsubs
  programmatics := store.programmatics
  declaratives := store.declaratives.filter (·.name ≠ d.name) ++ [d]
  nodup := by
    rw [List.map_append]
    refine pairwise_concat (nodup_filter store.nodup d.name) (List.forall_mem_map.2 fun d' hd' => ?_)
    exact of_decide_eq_true (List.mem_filter.1 hd').2

def Store.deleteDeclarativeSubscription (store : Store ρ) (name : String) : Store ρ where
  pubsubs := store.pubsubs
  programmatics := store.programmatics
  declaratives := store.declaratives.filter (·.name ≠ name)
  nodup := nodup_filter store.nodup name

def Store.getDeclarativeSubscription (store : Store ρ) (name : String) : Option (DeclarativeSubscription ρ) :=
  lookup (·.name) store.declaratives name

/-! ## The list to start -/

/-- A topic that is taken stays with the first. -/
def takeDeclarative (name : String) (subs : List (NamedSubscription ρ)) (d : DeclarativeSubscription ρ) :
    List (NamedSubscription ρ) :=
  if d.sub.pubsubName = name ∧ ∀ n ∈ subs, n.topic ≠ d.sub.topic then subs ++ [d.named] else subs

/-- It goes over to a programmatic subscription, in its place. -/
def takeProgrammatic (name : String) (subs : List (NamedSubscription ρ)) (sub : Subscription ρ) :
    List (NamedSubscription ρ) :=
  if sub.pubsubName = name then
    match subs.findIdx? (·.topic = sub.topic) with
    | some j => subs.set j ⟨none, sub⟩
    | none => subs ++ [⟨none, sub⟩]
  else subs

def Store.listSubscriptionsAppByPubSub (store : Store ρ) (name : String) : List (NamedSubscription ρ) :=
  store.programmatics.foldl (takeProgrammatic name) (store.declaratives.foldl (takeDeclarative name) [])

/-! ## Precedence -/

/-- The subscription is for the topic of the pubsub. -/
def Subscription.For (pubsubName topic : String) (sub : Subscription ρ) : Prop :=
  sub.pubsubName = pubsubName ∧ sub.topic = topic

instance {pubsubName topic : String} {sub : Subscription ρ} : Decidable (sub.For pubsubName topic) :=
  inferInstanceAs (Decidable (_ ∧ _))

def chosenProgrammatic (programmatics : List (Subscription ρ)) (pubsubName topic : String) :
    Option (NamedSubscription ρ) :=
  (programmatics.reverse.find? (·.For pubsubName topic)).map (⟨none, ·⟩)

def chosenDeclarative (declaratives : List (DeclarativeSubscription ρ)) (pubsubName topic : String) :
    Option (NamedSubscription ρ) :=
  (declaratives.find? (·.sub.For pubsubName topic)).map (·.named)

def Store.chosen (store : Store ρ) (pubsubName topic : String) : Option (NamedSubscription ρ) :=
  (chosenProgrammatic store.programmatics pubsubName topic).or (chosenDeclarative store.declaratives pubsubName topic)

variable {store : Store ρ} {name : String} {subs : List (NamedSubscription ρ)}

variable {d : DeclarativeSubscription ρ} {topic : String} {sub : Subscription ρ}

theorem lookup_takeDeclarative : lookup (·.topic) (takeDeclarative name subs d) topic =
      (lookup (·.topic) subs topic).or (if d.sub.For name topic then some d.named else none) := by
  unfold takeDeclarative
  split
  · rename_i h
    by_cases htopic : d.sub.topic = topic <;>
      simp [lookup, Subscription.For, h.1, DeclarativeSubscription.named, htopic]
  · rename_i h
    cases hl : lookup (·.topic) subs topic with
    | some n => rfl
    | none =>
      rw [if_neg, Option.or_none]
      rintro ⟨hname, rfl⟩
      exact h ⟨hname, fun n hn => Lib.Keyed.lookup_eq_none.1 hl n hn⟩

theorem lookup_takeProgrammatic : lookup (·.topic) (takeProgrammatic name subs sub) topic =
      (if sub.For name topic then some ⟨none, sub⟩ else none).or (lookup (·.topic) subs topic) := by
  unfold takeProgrammatic
  split
  · rename_i hname
    split
    · rename_i j hj
      rw [Lib.Keyed.lookup_set NamedSubscription.topic ⟨none, sub⟩ hj]
      by_cases htopic : sub.topic = topic <;> simp [Subscription.For, hname, htopic]
    · rename_i hnone
      rw [Lib.Keyed.lookup_append]
      by_cases htopic : sub.topic = topic
      · have hl : lookup (·.topic) subs topic = none := by
          rw [Lib.Keyed.lookup_eq_none]
          simpa [htopic] using hnone
        rw [hl, if_pos ⟨hname, htopic⟩]
        simp [lookup, htopic]
      · simp [lookup, Subscription.For, htopic]
  · rename_i hname
    simp [Subscription.For, hname]

theorem nodup_takeDeclarative (h : (subs.map (·.topic)).Nodup) :
    ((takeDeclarative name subs d).map (·.topic)).Nodup := by
  unfold takeDeclarative
  split
  · rename_i hfree
    rw [List.map_append]
    exact pairwise_concat h (List.forall_mem_map.2 hfree.2)
  · exact h

theorem nodup_takeProgrammatic (h : (subs.map (·.topic)).Nodup) :
    ((takeProgrammatic name subs sub).map (·.topic)).Nodup := by
  unfold takeProgrammatic
  split
  · split
    · rename_i j hj
      rwa [Lib.Keyed.map_set NamedSubscription.topic ⟨none, sub⟩ hj]
    · rename_i hnone
      have hall : ∀ n ∈ subs, n.topic ≠ sub.topic := by simpa using hnone
      rw [List.map_append]
      exact pairwise_concat h (List.forall_mem_map.2 hall)
  · exact h

theorem lookup_declaratives (declaratives : List (DeclarativeSubscription ρ)) :
    lookup (·.topic) (declaratives.foldl (takeDeclarative name) subs) topic =
      (lookup (·.topic) subs topic).or (chosenDeclarative declaratives name topic) := by
  induction declaratives generalizing subs with
  | nil => simp [chosenDeclarative]
  | cons d declaratives ih =>
    rw [List.foldl_cons, ih, lookup_takeDeclarative, Option.or_assoc]
    congr 1
    by_cases hfor : d.sub.For name topic <;> simp [hfor, chosenDeclarative]

theorem lookup_programmatics (programmatics : List (Subscription ρ)) :
    lookup (·.topic) (programmatics.foldl (takeProgrammatic name) subs) topic =
      (chosenProgrammatic programmatics name topic).or (lookup (·.topic) subs topic) := by
  induction programmatics generalizing subs with
  | nil => simp [chosenProgrammatic]
  | cons sub programmatics ih =>
    rw [List.foldl_cons, ih, lookup_takeProgrammatic, ← Option.or_assoc]
    congr 1
    simp only [chosenProgrammatic, List.reverse_cons, List.find?_append, Option.map_or]
    congr 1
    by_cases hfor : sub.For name topic <;> simp

/-- The list has the chosen subscription of each topic. -/
theorem lookup_listSubscriptionsAppByPubSub (topic : String) :
    lookup (·.topic) (store.listSubscriptionsAppByPubSub name) topic = store.chosen name topic := by
  rw [Store.listSubscriptionsAppByPubSub, lookup_programmatics, lookup_declaratives, Store.chosen]
  simp [lookup]

theorem nodup_listSubscriptionsAppByPubSub : ((store.listSubscriptionsAppByPubSub name).map (·.topic)).Nodup := by
  refine List.foldlRecOn _ _ (motive := fun subs : List (NamedSubscription ρ) => (subs.map (·.topic)).Nodup) ?_
    fun subs h sub _ => nodup_takeProgrammatic h
  refine List.foldlRecOn _ _ (motive := fun subs : List (NamedSubscription ρ) => (subs.map (·.topic)).Nodup) ?_
    fun subs h d _ => nodup_takeDeclarative h
  exact List.nodup_nil

theorem mem_listSubscriptionsAppByPubSub {n : NamedSubscription ρ} :
    n ∈ store.listSubscriptionsAppByPubSub name ↔ store.chosen name n.topic = some n := by
  rw [← lookup_listSubscriptionsAppByPubSub, Lib.Keyed.lookup_eq_some nodup_listSubscriptionsAppByPubSub]
  simp

end Dapr.Subscriber
