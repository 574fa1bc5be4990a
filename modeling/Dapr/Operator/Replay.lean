import Dapr.Operator.Informer
/-!
# What a watcher should be told

The events that are derived from what of a change is visible to a watcher, and their replay over what
was visible to it before.
-/

namespace Dapr.Operator

variable {σ : Type} {id : Identity} {cache : Cache σ} {c : Change σ}

def visible (id : Identity) (m : Manifest σ) : Bool := m.ns = id.ns && m.inScope id

/-- The part of the cache that is visible to a watcher. -/
def view (id : Identity) (cache : Cache σ) : Cache σ := fun key => (cache key).filter (visible id)

/-- The event of a change, for a watcher. -/
def derived (id : Identity) : Change σ → Option (Event σ)
  | .create new => if visible id new then some ⟨new, .created⟩ else none
  | .update old new =>
    if (Change.update old new).isResync then none
    else
      match visible id old, visible id new with
      | false, false => none
      | false, true => some ⟨new, .created⟩
      | true, false => some ⟨old, .deleted⟩
      | true, true => some ⟨new, .updated⟩
  | .delete obj => if visible id obj then some ⟨obj, .deleted⟩ else none

/-- An event changes a view only if it fits it: what is created is not there yet, what is updated or
deleted is there. -/
def applyEvent (v : Cache σ) (e : Event σ) : Option (Cache σ) :=
  match e.type, v e.manifest.key with
  | .created, none => some (Cache.set v e.manifest.key (some e.manifest))
  | .updated, some _ => some (Cache.set v e.manifest.key (some e.manifest))
  | .deleted, some _ => some (Cache.set v e.manifest.key none)
  | _, _ => none

def replay (v : Cache σ) (events : List (Event σ)) : Option (Cache σ) := events.foldlM applyEvent v

/-- Changes that occur one after the other. -/
def Occur (cache : Cache σ) : List (Change σ) → Prop
  | [] => True
  | c :: cs => c.Occurs cache ∧ Occur (c.apply cache) cs

theorem occur_concat {cs : List (Change σ)} :
    Occur cache (cs ++ [c]) ↔ Occur cache cs ∧ c.Occurs (cs.foldl Change.apply cache) := by
  induction cs generalizing cache with
  | nil => simp [Occur]
  | cons first cs ih => simp [Occur, ih, and_assoc]

theorem view_set (id : Identity) (cache : Cache σ) (key : String × String) (m : Option (Manifest σ)) :
    view id (cache.set key m) = (view id cache).set key (m.filter (visible id)) := by
  funext k
  by_cases h : k = key <;> simp [view, Cache.set, h]

theorem set_eq_self {v : Cache σ} {key : String × String} {m : Option (Manifest σ)} (h : v key = m) : v.set key m = v := by
  funext k
  by_cases hk : k = key <;> simp [Cache.set, hk, h]

@[simp] theorem filter_visible_true {m : Manifest σ} (h : visible id m = true) :
    (some m).filter (visible id) = some m := by
  rw [Option.filter_some, if_pos h]

@[simp] theorem filter_visible_false {m : Manifest σ} (h : visible id m = false) :
    (some m).filter (visible id) = none := by
  simp [h]

/-- The event that is derived from a change turns what was visible into what is visible. -/
theorem replay_derived (h : c.Occurs cache) :
    replay (view id cache) (derived id c).toList = some (view id (c.apply cache)) := by
  cases c with
  | create new =>
    have hview : view id cache new.key = none := by simp [view, show cache new.key = none from h]
    cases hv : visible id new with
    | true => simp [derived, hv, replay, applyEvent, hview, Change.apply, view_set]
    | false => simp [derived, hv, replay, Change.apply, view_set, set_eq_self hview]
  | update old new =>
    obtain ⟨hold, hkey, hresync⟩ := h
    have hview : view id cache old.key = (some old).filter (visible id) := by rw [view, hold]
    cases hres : (Change.update old new).isResync with
    | true =>
      obtain rfl := hresync hres
      simp [derived, hres, replay, Change.apply, set_eq_self hold]
    | false =>
      cases ho : visible id old with
      | true =>
        cases hn : visible id new <;>
          simp [derived, hres, ho, hn, replay, applyEvent, hview, hkey, Change.apply, view_set]
      | false =>
        cases hn : visible id new <;>
          simp [derived, hres, ho, hn, replay, applyEvent, hview, hkey, Change.apply, view_set, set_eq_self]
  | delete obj =>
    have hobj : cache obj.key = some obj := h
    have hview : view id cache obj.key = (some obj).filter (visible id) := by rw [view, hobj]
    cases hv : visible id obj with
    | true => simp [derived, hv, replay, applyEvent, hview, Change.apply, view_set]
    | false =>
      rw [filter_visible_false hv] at hview
      simp [derived, hv, replay, Change.apply, view_set, set_eq_self hview]

theorem replay_history {cs : List (Change σ)} (h : Occur cache cs) :
    replay (view id cache) (cs.filterMap (derived id)) = some (view id (cs.foldl Change.apply cache)) := by
  induction cs generalizing cache with
  | nil => rfl
  | cons c cs ih =>
    have hsplit : (c :: cs).filterMap (derived id) = (derived id c).toList ++ cs.filterMap (derived id) := by
      cases hd : derived id c <;> simp [hd]
    have hfirst := @replay_derived σ id cache c h.1
    have hrest := ih h.2
    simp only [replay] at hfirst hrest ⊢
    rw [hsplit, List.foldlM_append, hfirst]
    exact hrest

end Dapr.Operator
