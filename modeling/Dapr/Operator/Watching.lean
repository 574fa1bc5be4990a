import Dapr.Operator.Replay
import Mathlib.Data.List.Basic
/-!
# Watchers of the informer

A watcher that sees a manifest for the first time after an update is to be told that the manifest is
created. The type of the shared event object is changed for that, so every other watcher is told the
same. If for each update the watchers that see the new version agree on whether they saw the old one,
each is told exactly what is derived for it; otherwise one of them is told what is meant for another.
-/

namespace Dapr.Operator

open Lib.Runs List Option

variable {σ : Type} {s s' : State σ} {c : Change σ}

/-! ## The type for a watcher -/

/-- The watcher saw the manifest before the change. -/
def Change.sawOld (c : Change σ) (id : Identity) : Bool := c.oldObj.any (·.inScope id)

/-- The type of the event for a watcher that sees the new version. -/
def Change.typeFor (c : Change σ) (id : Identity) : ResourceEventType :=
  if c.eventType = .updated ∧ c.sawOld id = false then .created else c.eventType

theorem derived_of_visible {id : Identity} (hres : c.isResync = false) (hns : ∀ old ∈ c.oldObj, old.ns = c.newObj.ns)
    (hv : visible id c.newObj = true) : derived id c = some ⟨c.newObj, c.typeFor id⟩ := by
  cases c with
  | create new =>
    have hv : visible id new = true := hv
    simp [derived, hv, Change.newObj, Change.typeFor, Change.eventType]
  | update old new =>
    have hnew : visible id new = true := hv
    have hold : visible id old = old.inScope id := by
      have hsame : old.ns = new.ns := hns old rfl
      have hthis : new.ns = id.ns := by
        simp only [visible, Bool.and_eq_true, decide_eq_true_eq] at hnew
        exact hnew.1
      simp [visible, hsame, hthis]
    cases hscope : old.inScope id <;>
      simp [derived, hres, hnew, hold, hscope, Change.newObj, Change.typeFor, Change.eventType, Change.sawOld,
        Change.oldObj]
  | delete obj =>
    have hv : visible id obj = true := hv
    simp [derived, hv, Change.newObj, Change.typeFor, Change.eventType]

theorem derived_of_invisible {id : Identity} (hres : c.isResync = false) (hv : visible id c.newObj = false) :
    derived id c = (c.oldObj.filter (visible id)).map (⟨·, .deleted⟩) := by
  cases c with
  | create new =>
    have hv : visible id new = false := hv
    simp [derived, hv, Change.oldObj]
  | update old new =>
    have hv : visible id new = false := hv
    cases hold : visible id old <;> simp [derived, hres, hv, hold, Change.oldObj]
  | delete obj =>
    have hv : visible id obj = false := hv
    simp [derived, hv, Change.oldObj]

/-- The answers for a watcher, with the event object afterwards. -/
theorem appEventFromEvent_cases (id : Identity) (hres : c.isResync = false)
    (hns : ∀ old ∈ c.oldObj, old.ns = c.newObj.ns) (t : ResourceEventType) :
    (appEventFromEvent id ⟨c.newObj, t⟩ c.oldObj = (.nothing, ⟨c.newObj, t⟩) ∧ derived id c = none) ∨
    (∃ e, appEventFromEvent id ⟨c.newObj, t⟩ c.oldObj = (.own e, ⟨c.newObj, t⟩) ∧ derived id c = some e) ∨
    (visible id c.newObj = true ∧ appEventFromEvent id ⟨c.newObj, t⟩ c.oldObj =
      (.newObj, ⟨c.newObj, if c.sawOld id = false ∧ t = .updated then .created else t⟩)) := by
  by_cases hthis : c.newObj.ns = id.ns
  · have hvisible : ∀ old ∈ c.oldObj, visible id old = old.inScope id := fun old hold => by
      simp [visible, hns old hold, hthis]
    cases hnew : c.newObj.inScope id with
    | true =>
      refine .inr (.inr ⟨by simp [visible, hthis, hnew], ?_⟩)
      simp only [appEventFromEvent, hthis, hnew, ne_eq]
      exact (apply_ite (fun t => (AppEvent.newObj, (⟨c.newObj, t⟩ : Event σ))) _ _ _).symm
    | false =>
      rw [derived_of_invisible hres (by simp [visible, hnew])]
      cases hold : c.oldObj with
      | none => exact .inl ⟨by simp [appEventFromEvent, hnew], rfl⟩
      | some old =>
        have hscope := hvisible old hold
        cases hin : old.inScope id with
        | true =>
          exact .inr (.inl ⟨⟨old, .deleted⟩, by simp [appEventFromEvent, hthis, hnew, hin], by simp [hscope, hin]⟩)
        | false => exact .inl ⟨by simp [appEventFromEvent, hnew, hin], by simp [hscope, hin]⟩
  · refine .inl ⟨by simp [appEventFromEvent, hthis], ?_⟩
    rw [derived_of_invisible hres (by simp [visible, hthis]), map_eq_none_iff, filter_eq_none_iff]
    intro old hold
    simp [visible, hns old hold, hthis]

/-! ## What holds in every run -/

/-- The pass is not done with the watcher. -/
def State.busyWith (s : State σ) (i : Nat) : Bool := s.handling.any (i ∈ ·.todo)

/-- The changes that the informer is done with, for a watcher. -/
def State.handledFor (s : State σ) (i : Nat) : List (Change σ) := if s.busyWith i then s.history.dropLast else s.history

/-- A pass over the watchers, for the change `c`. The event object has the type `t`; `agreed` is the
type for every watcher that sees the new version. -/
structure Pass (s : State σ) (h : Handling σ) (c : Change σ) (agreed t : ResourceEventType) : Prop where
  history : ∃ before, s.history = before ++ [c]
  fresh : c.isResync = false
  ns : ∀ old ∈ c.oldObj, old.ns = c.newObj.ns
  oldObj : h.oldObj = c.oldObj
  cells : ∃ before, s.cells = before ++ [⟨c.newObj, t⟩] ∧ h.cell = before.length
  nodup : h.todo.Nodup
  since : ∀ i ∈ h.todo, ∀ w, s.watchers i = some w → w.since < s.history.length
  agree : ∀ i w, s.watchers i = some w → visible w.id c.newObj = true → c.typeFor w.id = agreed
  type : t = c.eventType ∨ t = agreed
  held : ∀ i w, s.watchers i = some w → .shared h.cell ∈ w.ch → t = agreed
  sending : ∀ i m, h.sending = some (i, m) → i ∈ h.todo ∧ (m = .shared h.cell → t = agreed) ∧
    ∀ w, s.watchers i = some w → ∃ e, m.deref s.cells = some e ∧ derived w.id c = some e

/-- A watcher that goes on has been told, or will read, what the handled changes come to for it. -/
structure Inv (s : State σ) : Prop where
  refs : ∀ i w, s.watchers i = some w → ∀ cell, .shared cell ∈ w.ch → cell < s.cells.length
  known : ∀ i w, s.watchers i = some w → i < s.idx
  since : ∀ i w, s.watchers i = some w → w.since ≤ s.history.length
  follows : ∀ i w, s.watchers i = some w → Occur w.initial (s.history.drop w.since) ∧
    (s.history.drop w.since).foldl Change.apply w.initial = s.cache
  told : ∀ i w, s.watchers i = some w → w.done = false → s.stopping = false →
    w.received ++ w.ch.filterMap (Message.deref s.cells) = ((s.handledFor i).drop w.since).filterMap (derived w.id)
  pass : ∀ h, s.handling = some h → ∃ c agreed t, Pass s h c agreed t

/-- The watchers that see the new version of an update agree on whether they saw the old one. -/
def Agree (s : State σ) (c : Change σ) : Prop :=
  ∀ i ∈ s.registered, ∀ j ∈ s.registered, ∀ w ∈ s.watchers i, ∀ v ∈ s.watchers j,
    visible w.id c.newObj = true → visible v.id c.newObj = true → c.sawOld w.id = c.sawOld v.id

theorem inv_start (cache : Cache σ) : Inv (State.start cache) := by
  constructor <;> simp [State.start]

theorem mem_registered {s : State σ} (h : Inv s) {i : Nat} {w : Watcher σ} (hw : s.watchers i = some w) : i ∈ s.registered :=
  mem_filter.2 ⟨mem_range.2 (h.known i w hw), by simp [hw]⟩

/-- Watchers that agree on the old version are told the same type. -/
theorem exists_agreed (h : Inv s) (ha : Agree s c) :
    ∃ agreed, ∀ i w, s.watchers i = some w → visible w.id c.newObj = true → c.typeFor w.id = agreed := by
  by_cases hex : ∃ i w, s.watchers i = some w ∧ visible w.id c.newObj = true
  · obtain ⟨i, w, hw, hv⟩ := hex
    refine ⟨c.typeFor w.id, fun j v hv' hvis => ?_⟩
    have hsame := ha j (mem_registered h hv') i (mem_registered h hw) v hv' w hw hvis hv
    rw [Change.typeFor, Change.typeFor, hsame]
  · exact ⟨c.eventType, fun i w hw hv => absurd ⟨i, w, hw, hv⟩ hex⟩

/-! ## A watcher changes -/

section
variable {h h' : Handling σ} {agreed t : ResourceEventType} {i : Nat} {w w' : Watcher σ} {m : Message σ}

/-- A pass goes on with fewer watchers, which may have read their messages or got the one that was sent. -/
theorem Pass.mono (hp : Pass s h c agreed t) (hhistory : s'.history = s.history) (hcells : s'.cells = s.cells)
    (hcell : h'.cell = h.cell) (hold : h'.oldObj = h.oldObj) (htodo : h'.todo.Sublist h.todo)
    (hsending : ∀ i m, h'.sending = some (i, m) → h.sending = some (i, m) ∧ i ∈ h'.todo)
    (hw : ∀ i w', s'.watchers i = some w' → ∃ w, s.watchers i = some w ∧ w'.id = w.id ∧ w'.since = w.since ∧
      (.shared h.cell ∈ w'.ch → .shared h.cell ∈ w.ch ∨ t = agreed)) : Pass s' h' c agreed t where
  history := hhistory ▸ hp.history
  fresh := hp.fresh
  ns := hp.ns
  oldObj := hold.trans hp.oldObj
  cells := by rw [hcells, hcell]; exact hp.cells
  nodup := hp.nodup.sublist htodo
  since i hi w' hw' := by
    obtain ⟨w, hws, -, hsince, -⟩ := hw i w' hw'
    rw [hhistory, hsince]
    exact hp.since i (htodo.subset hi) w hws
  agree i w' hw' hv := by
    obtain ⟨w, hws, hid, -, -⟩ := hw i w' hw'
    rw [hid] at hv ⊢
    exact hp.agree i w hws hv
  type := hp.type
  held i w' hw' hmem := by
    obtain ⟨w, hws, -, -, hheld⟩ := hw i w' hw'
    rw [hcell] at hmem
    exact (hheld hmem).elim (hp.held i w hws) fun heq => heq
  sending i m hm := by
    obtain ⟨hm, hi⟩ := hsending i m hm
    obtain ⟨-, hshared, hderef⟩ := hp.sending i m hm
    refine ⟨hi, hcell ▸ hshared, fun w' hw' => ?_⟩
    obtain ⟨w, hws, hid, -, -⟩ := hw i w' hw'
    rw [hcells, hid]
    exact hderef w hws

theorem setWatcher_eq {j : Nat} {v : Watcher σ} (hv : (s.setWatcher i w').watchers j = some v) :
    (j = i ∧ v = w') ∨ (j ≠ i ∧ s.watchers j = some v) := by
  by_cases hj : j = i
  · simp only [State.setWatcher, hj, if_true, some.injEq] at hv
    exact .inl ⟨hj, hv.symm⟩
  · simp only [State.setWatcher, hj] at hv
    exact .inr ⟨hj, hv⟩

theorem forall_setWatcher {P : Nat → Watcher σ → Prop} (h : ∀ j v, s.watchers j = some v → P j v) (hi : P i w') :
    ∀ j v, (s.setWatcher i w').watchers j = some v → P j v := by
  intro j v hv
  obtain ⟨rfl, rfl⟩ | ⟨-, hv⟩ := setWatcher_eq hv
  · exact hi
  · exact h j v hv

/-- A watcher reads, or disconnects. -/
theorem Inv.setWatcher (h : Inv s) (hw : s.watchers i = some w) (hid : w'.id = w.id) (hsince : w'.since = w.since)
    (hinitial : w'.initial = w.initial) (hch : w'.ch ⊆ w.ch)
    (htold : w'.done = false → w.done = false ∧ w'.received ++ w'.ch.filterMap (Message.deref s.cells) =
      w.received ++ w.ch.filterMap (Message.deref s.cells)) : Inv (s.setWatcher i w') where
  refs := forall_setWatcher h.refs fun cell hcell => h.refs i w hw cell (hch hcell)
  known := forall_setWatcher h.known (h.known i w hw)
  since := forall_setWatcher h.since (hsince ▸ h.since i w hw)
  follows := by
    refine forall_setWatcher h.follows ?_
    rw [hsince, hinitial]
    exact h.follows i w hw
  told := by
    refine forall_setWatcher h.told fun hdone hstop => ?_
    obtain ⟨hdone, heq⟩ := htold hdone
    rw [hid, hsince]
    exact heq.trans (h.told i w hw hdone hstop)
  pass hd hhd := by
    obtain ⟨c, agreed, t, hp⟩ := h.pass hd hhd
    refine ⟨c, agreed, t, hp.mono rfl rfl rfl rfl (.refl _) (fun i m hm => ⟨hm, (hp.sending i m hm).1⟩) ?_⟩
    intro j v hv
    obtain ⟨rfl, rfl⟩ | ⟨-, hv⟩ := setWatcher_eq hv
    · exact ⟨w, hw, hid, hsince, fun hmem => .inl (hch hmem)⟩
    · exact ⟨v, hv, rfl, rfl, .inl⟩

/-! ## The pass is done with a watcher -/

theorem busyWith_of_todo (hh : s.handling = some h) : s.busyWith i = decide (i ∈ h.todo) := by
  simp [State.busyWith, hh]

/-- What the change adds to the events of a watcher that the pass is not done with. -/
theorem Pass.derived_history (hp : Pass s h c agreed t) (hi : i ∈ h.todo) (hw : s.watchers i = some w) :
    (s.history.drop w.since).filterMap (derived w.id) =
      (s.history.dropLast.drop w.since).filterMap (derived w.id) ++ (derived w.id c).toList := by
  obtain ⟨before, hbefore⟩ := hp.history
  have hsince := hp.since i hi w hw
  rw [hbefore, length_append, length_singleton] at hsince
  rw [hbefore, drop_append_of_le_length (by omega)]
  cases hd : derived w.id c <;> simp [hd]

theorem setWatcher_self (hw : s.watchers i = some w) : s.setWatcher i w = s := by
  have heq : (fun j => if j = i then some w else s.watchers j) = s.watchers := by
    funext j
    split
    · next hj => rw [hj, hw]
    · rfl
  rw [State.setWatcher, heq]

theorem handledFor_sent (hh : s.handling = some h) (hn : h.todo.Nodup) {j : Nat} :
    (s.sent h i).handledFor j = if j = i then s.history else s.handledFor j := by
  have hmem : j ∈ h.todo.erase i ↔ j ≠ i ∧ j ∈ h.todo := hn.mem_erase_iff
  by_cases hj : j = i
  · subst hj
    simp [State.handledFor, State.busyWith, State.sent, hmem]
  · simp [State.handledFor, State.busyWith, State.sent, hj, hh]

/-- The pass is done with a watcher: it has sent what it was sending, if anything. -/
theorem Inv.doneWith (hinv : Inv s) (hh : s.handling = some h) (hp : Pass s h c agreed t) (hi : i ∈ h.todo)
    (hw : s.watchers i = some w) {ms : List (Message σ)} (hms : ∀ m ∈ ms, h.sending = some (i, m))
    (htold : w.done = false → ms.filterMap (Message.deref s.cells) = (derived w.id c).toList) :
    Inv ((s.sent h i).setWatcher i { w with ch := w.ch ++ ms }) where
  refs := by
    refine forall_setWatcher hinv.refs fun cell hcell => ?_
    rcases mem_append.1 hcell with hcell | hcell
    · exact hinv.refs i w hw cell hcell
    · obtain ⟨e, he, -⟩ := (hp.sending i _ (hms _ hcell)).2.2 w hw
      exact (List.getElem?_eq_some_iff.1 he).1
  known := forall_setWatcher hinv.known (hinv.known i w hw)
  since := forall_setWatcher hinv.since (hinv.since i w hw)
  follows := forall_setWatcher hinv.follows (hinv.follows i w hw)
  told j v hv hdone hstop := by
    have hhandled : ((s.sent h i).setWatcher i { w with ch := w.ch ++ ms }).handledFor j =
        if j = i then s.history else s.handledFor j := handledFor_sent hh hp.nodup
    rw [hhandled]
    obtain ⟨rfl, rfl⟩ | ⟨hj, hv⟩ := setWatcher_eq hv
    · have hbefore := hinv.told j w hw hdone hstop
      have hbusy : s.busyWith j = true := by rw [busyWith_of_todo hh, decide_eq_true hi]
      rw [State.handledFor, if_pos hbusy] at hbefore
      rw [if_pos rfl, hp.derived_history hi hw, ← hbefore, ← htold hdone, filterMap_append, append_assoc]
      rfl
    · rw [if_neg hj]
      exact hinv.told j v hv hdone hstop
  pass hd hhd := by
    obtain rfl : { h with todo := h.todo.erase i, sending := none } = hd := some.inj hhd
    refine ⟨c, agreed, t, hp.mono rfl rfl rfl rfl erase_sublist (nofun) fun j v hv => ?_⟩
    obtain ⟨rfl, rfl⟩ | ⟨-, hv⟩ := setWatcher_eq hv
    · refine ⟨w, hw, rfl, rfl, fun hmem => ?_⟩
      rcases mem_append.1 hmem with hmem | hmem
      · exact .inl hmem
      · exact .inr ((hp.sending j _ (hms _ hmem)).2.1 rfl)
    · exact ⟨v, hv, rfl, rfl, .inl⟩

/-! ## The pass comes to a watcher -/

theorem Pass.getElem_cells (hp : Pass s h c agreed t) : s.cells[h.cell]? = some ⟨c.newObj, t⟩ := by
  obtain ⟨before, hcells, hcell⟩ := hp.cells
  simp [hcells, hcell]

theorem Pass.set_cells (hp : Pass s h c agreed t) : s.cells.set h.cell ⟨c.newObj, t⟩ = s.cells := by
  obtain ⟨before, hcells, hcell⟩ := hp.cells
  simp [hcells, hcell]

theorem deref_set {cells : List (Event σ)} {cell : Nat} {e : Event σ} (hm : m ≠ .shared cell) :
    m.deref (cells.set cell e) = m.deref cells := by
  cases m with
  | own event => rfl
  | shared cell' =>
    refine getElem?_set_ne ?_
    rintro rfl
    exact hm rfl

/-- The event object is given its type for the watcher, and is held out to it. No one holds the object
yet if that changes it. -/
theorem Inv.sendTo (hinv : Inv s) (hh : s.handling = some h) (hp : Pass s h c agreed t) (hi : i ∈ h.todo)
    {t' : ResourceEventType} (hset : t' = t ∨ ∀ j v, s.watchers j = some v → .shared h.cell ∉ v.ch)
    (htype : t' = t ∨ t' = agreed) (hshared : m = .shared h.cell → t' = agreed)
    (hm : ∀ w, s.watchers i = some w →
      ∃ e, m.deref (s.cells.set h.cell ⟨c.newObj, t'⟩) = some e ∧ derived w.id c = some e) :
    Inv { s with
      cells := s.cells.set h.cell ⟨c.newObj, t'⟩
      handling := some { h with sending := some (i, m) } } where
  refs j v hv cell hcell := by
    rw [length_set]
    exact hinv.refs j v hv cell hcell
  known := hinv.known
  since := hinv.since
  follows := hinv.follows
  told j v hv hdone hstop := by
    have hsame : v.ch.filterMap (Message.deref (s.cells.set h.cell ⟨c.newObj, t'⟩)) =
        v.ch.filterMap (Message.deref s.cells) := by
      rcases hset with rfl | hset
      · rw [hp.set_cells]
      · refine filterMap_congr fun m hmem => deref_set ?_
        rintro rfl
        exact hset j v hv hmem
    have htold := hinv.told j v hv hdone hstop
    rw [State.handledFor, busyWith_of_todo hh] at htold
    rw [hsame, htold]
    rfl
  pass hd hhd := by
    obtain rfl : { h with sending := some (i, m) } = hd := some.inj hhd
    obtain ⟨before, hcells, hcell⟩ := hp.cells
    refine ⟨c, agreed, t', hp.history, hp.fresh, hp.ns, hp.oldObj, ⟨before, ?_, hcell⟩, hp.nodup, hp.since, hp.agree, ?_, ?_, ?_⟩
    · simp [hcells, hcell]
    · rcases htype with rfl | rfl
      · exact hp.type
      · exact .inr rfl
    · intro j v hv hmem
      rcases hset with rfl | hset
      · exact hp.held j v hv hmem
      · exact absurd hmem (hset j v hv)
    · intro j m' hm'
      obtain ⟨rfl, rfl⟩ : i = j ∧ m = m' := by simpa using hm'
      exact ⟨hi, hshared, hm⟩

/-- The type that the event object is given for a watcher that sees the new version is the agreed one. -/
theorem Pass.type_eq (hp : Pass s h c agreed t) (hw : s.watchers i = some w) (hv : visible w.id c.newObj = true) :
    (if c.sawOld w.id = false ∧ t = .updated then ResourceEventType.created else t) = agreed := by
  have hagree := hp.agree i w hw hv
  rw [← hagree]
  rcases hp.type with rfl | rfl
  · simp only [Change.typeFor, and_comm]
  · rw [← hagree]
    unfold Change.typeFor
    split
    · simp
    · next hnot =>
      rw [if_neg]
      exact fun hboth => hnot hboth.symm

theorem Inv.visit (hinv : Inv s) (hh : s.handling = some h) (hi : i ∈ h.todo) (hsending : h.sending = none)
    (hw : s.watchers i = some w) {newObj : Event σ} (hcell : s.cells[h.cell]? = some newObj) :
    Inv (s.visit h i w.id newObj) := by
  obtain ⟨c, agreed, t, hp⟩ := hinv.pass h hh
  obtain rfl : ⟨c.newObj, t⟩ = newObj := some.inj (hp.getElem_cells.symm.trans hcell)
  obtain ⟨heq, hnone⟩ | ⟨e, heq, hsome⟩ | ⟨hv, heq⟩ := appEventFromEvent_cases w.id hp.fresh hp.ns t
  · have hvisit : s.visit h i w.id ⟨c.newObj, t⟩ = s.sent h i := by
      simp only [State.visit, hp.oldObj, heq, hp.set_cells, State.sent, hsending]
    have hdone := @Inv.doneWith σ s c h agreed t i w hinv hh hp hi hw [] (by simp) (by simp [hnone])
    rw [append_nil, setWatcher_self (show (s.sent h i).watchers i = some w from hw)] at hdone
    rwa [hvisit]
  · have hvisit : s.visit h i w.id ⟨c.newObj, t⟩ = { s with
        cells := s.cells.set h.cell ⟨c.newObj, t⟩
        handling := some { h with sending := some (i, .own e) } } := by
      simp only [State.visit, hp.oldObj, heq]
    rw [hvisit]
    refine hinv.sendTo hh hp hi (.inl rfl) (.inl rfl) (by simp) fun v hv => ⟨e, rfl, ?_⟩
    obtain rfl : w = v := some.inj (hw.symm.trans hv)
    exact hsome
  · rw [hp.type_eq hw hv] at heq
    have hvisit : s.visit h i w.id ⟨c.newObj, t⟩ = { s with
        cells := s.cells.set h.cell ⟨c.newObj, agreed⟩
        handling := some { h with sending := some (i, .shared h.cell) } } := by
      simp only [State.visit, hp.oldObj, heq]
    rw [hvisit]
    refine hinv.sendTo hh hp hi ?_ (.inr rfl) (fun _ => rfl) fun v hv' => ⟨⟨c.newObj, agreed⟩, ?_, ?_⟩
    · by_cases hsame : agreed = t
      · exact .inl hsame
      · exact .inr fun j v hv hmem => hsame (hp.held j v hv hmem).symm
    · have hlt := (List.getElem?_eq_some_iff.1 hp.getElem_cells).1
      simp [Message.deref, hlt]
    · obtain rfl : w = v := some.inj (hw.symm.trans hv')
      rw [derived_of_visible hp.fresh hp.ns hv, hp.agree i w hw hv]

end

/-! ## The other steps -/

theorem ns_of_occurs {cache : Cache σ} (h : c.Occurs cache) : ∀ old ∈ c.oldObj, old.ns = c.newObj.ns := by
  cases c with
  | update old new =>
    rintro old' ⟨⟩
    exact (congrArg Prod.fst h.2.1).symm
  | create | delete => simp [Change.oldObj]

theorem nodup_registered (s : State σ) : s.registered.Nodup := nodup_range.filter _

/-- The cache follows the changes that happened since a watcher connected. -/
theorem Inv.follows_concat (h : Inv s) (hc : c.Occurs s.cache) {i : Nat} {w : Watcher σ} (hw : s.watchers i = some w) :
    Occur w.initial ((s.history ++ [c]).drop w.since) ∧
      ((s.history ++ [c]).drop w.since).foldl Change.apply w.initial = c.apply s.cache := by
  obtain ⟨hoccur, hcache⟩ := h.follows i w hw
  rw [drop_append_of_le_length (h.since i w hw)]
  refine ⟨occur_concat.2 ⟨hoccur, hcache ▸ hc⟩, ?_⟩
  rw [foldl_append, hcache]
  rfl

theorem deref_append {cells : List (Event σ)} {e : Event σ} {m : Message σ}
    (hm : ∀ cell, m = .shared cell → cell < cells.length) : m.deref (cells ++ [e]) = m.deref cells := by
  cases m with
  | own event => rfl
  | shared cell => exact getElem?_append_left (hm cell rfl)

theorem derived_resync (hres : c.isResync = true) (id : Identity) : derived id c = none := by
  cases c with
  | update old new => simp [derived, hres]
  | create | delete => cases hres

theorem Inv.handleEvent (h : Inv s) (hh : s.handling = none) (hc : c.Occurs s.cache) (ha : Agree s c) :
    Inv (s.handleEvent c) := by
  have hidle : ∀ i, s.handledFor i = s.history := fun i => by simp [State.handledFor, State.busyWith, hh]
  have hsince : ∀ i w, s.watchers i = some w → w.since ≤ (s.history ++ [c]).length := fun i w hw => by
    have := h.since i w hw
    rw [length_append]
    omega
  cases hres : c.isResync with
  | true =>
    have heq : s.handleEvent c = { s with cache := c.apply s.cache, history := s.history ++ [c] } := by
      simp [State.handleEvent, hres]
    rw [heq]
    refine ⟨h.refs, h.known, hsince, fun i w hw => h.follows_concat hc hw, fun i w hw hdone hstop => ?_, fun hd hhd => ?_⟩
    · have htold := h.told i w hw hdone hstop
      rw [hidle i] at htold
      have hhandled : State.handledFor { s with cache := c.apply s.cache, history := s.history ++ [c] } i =
          s.history ++ [c] := by simp [State.handledFor, State.busyWith, hh]
      rw [hhandled, drop_append_of_le_length (h.since i w hw), filterMap_append, ← htold]
      simp [derived_resync hres]
    · rw [hh] at hhd
      cases hhd
  | false =>
    obtain ⟨agreed, hagreed⟩ := exists_agreed h ha
    have heq : s.handleEvent c = { s with
        cache := c.apply s.cache
        history := s.history ++ [c]
        cells := s.cells ++ [⟨c.newObj, c.eventType⟩]
        handling := some ⟨s.cells.length, c.oldObj, s.registered, none⟩ } := by
      simp [State.handleEvent, hres]
    rw [heq]
    refine ⟨fun i w hw cell hcell => ?_, h.known, hsince, fun i w hw => h.follows_concat hc hw, fun i w hw hdone hstop => ?_,
      fun hd hhd => ?_⟩
    · have := h.refs i w hw cell hcell
      rw [length_append]
      omega
    · -- every registered watcher is still to be told
      have htold := h.told i w hw hdone hstop
      rw [hidle i] at htold
      have hhandled : State.handledFor { s with
          cache := c.apply s.cache
          history := s.history ++ [c]
          cells := s.cells ++ [⟨c.newObj, c.eventType⟩]
          handling := some ⟨s.cells.length, c.oldObj, s.registered, none⟩ } i = s.history := by
        simp [State.handledFor, State.busyWith, mem_registered h hw]
      have hsame : w.ch.filterMap (Message.deref (s.cells ++ [⟨c.newObj, c.eventType⟩])) =
          w.ch.filterMap (Message.deref s.cells) := by
        refine filterMap_congr fun m hm => deref_append fun cell hcell => ?_
        exact h.refs i w hw cell (hcell ▸ hm)
      rw [hhandled, hsame, htold]
    · obtain rfl : ⟨s.cells.length, c.oldObj, s.registered, none⟩ = hd := some.inj hhd
      refine ⟨c, agreed, c.eventType, ⟨s.history, rfl⟩, hres, ns_of_occurs hc, rfl, ⟨s.cells, rfl, rfl⟩,
        nodup_registered s, fun i _ w hw => ?_, hagreed, .inl rfl, fun i w hw hmem => ?_, nofun⟩
      · have := h.since i w hw
        simp only [length_append, length_singleton]
        omega
      · exact absurd (h.refs i w hw _ hmem) (Nat.lt_irrefl _)

/-- The pass is over, or is given up when the informer stops. -/
theorem Inv.release (h : Inv s) {hd : Handling σ} (hh : s.handling = some hd) (hover : hd.todo = [] ∨ s.stopping = true) :
    Inv { s with handling := none } := by
  refine ⟨h.refs, h.known, h.since, h.follows, fun i w hw hdone hstop => ?_, nofun⟩
  rcases hover with htodo | hstopping
  · have htold := h.told i w hw hdone hstop
    have hhandled : s.handledFor i = s.history := by simp [State.handledFor, busyWith_of_todo hh, htodo]
    rw [hhandled] at htold
    exact htold
  · rw [hstopping] at hstop
    cases hstop

/-- Watchers are removed while no pass is under way. -/
theorem Inv.unwatch (h : Inv s) (hh : s.handling = none) {watchers : Nat → Option (Watcher σ)}
    (hsub : ∀ i w, watchers i = some w → s.watchers i = some w) {closed : Bool} :
    Inv { s with watchers := watchers, closed := closed } where
  refs i w hw := h.refs i w (hsub i w hw)
  known i w hw := h.known i w (hsub i w hw)
  since i w hw := h.since i w (hsub i w hw)
  follows i w hw := h.follows i w (hsub i w hw)
  told i w hw := h.told i w (hsub i w hw)
  pass hd hhd := by
    rw [hh] at hhd
    cases hhd

theorem Inv.watch (h : Inv s) (hh : s.handling = none) (id : Identity) :
    Inv ({ s with idx := s.idx + 1 }.setWatcher s.idx ⟨id, [], [], false, s.history.length, s.cache⟩) where
  refs := forall_setWatcher h.refs fun cell hcell => by cases hcell
  known := forall_setWatcher (fun j v hv => Nat.lt_succ_of_lt (h.known j v hv)) (Nat.lt_succ_self _)
  since := forall_setWatcher h.since (Nat.le_refl _)
  follows := forall_setWatcher h.follows (by simp [State.setWatcher, Occur])
  told := forall_setWatcher h.told (by simp [State.setWatcher, State.handledFor, State.busyWith, hh])
  pass hd hhd := by
    rw [show s.handling = some hd from hhd] at hh
    cases hh

/-! ## Every run -/

/-- For each update the watchers that see the new version agree on the old one. -/
def Allowed (s : State σ) : Label σ → Prop
  | .change c => Agree s c
  | _ => True

instance (s : State σ) (c : Change σ) : Decidable (Agree s c) := by
  unfold Agree
  infer_instance

instance (s : State σ) : (l : Label σ) → Decidable (Allowed s l)
  | .change c => inferInstanceAs (Decidable (Agree s c))
  | .visit _ | .send | .skip | .abort | .finish | .receive _ | .watch _ | .leave _ | .unwatch _ | .stop | .shutdown =>
    .isTrue trivial

theorem inv_next [DecidableEq σ] {l : Label σ} (h : Inv s) (hok : Allowed s l) (hs : next s l = some s') : Inv s' := by
  cases l with
  | change c =>
    simp only [next, ite_none_right_eq_some, some.injEq, isNone_iff_eq_none] at hs
    obtain ⟨⟨hidle, hoccurs⟩, rfl⟩ := hs
    exact h.handleEvent hidle hoccurs hok
  | visit i =>
    simp only [next] at hs
    split at hs
    · next hd w hh hw =>
      simp only [ite_none_right_eq_some, map_eq_some_iff] at hs
      obtain ⟨⟨hi, hsending⟩, newObj, hcell, rfl⟩ := hs
      exact h.visit hh hi hsending hw hcell
    · cases hs
  | send =>
    simp only [next] at hs
    split at hs
    · next hd hh =>
      split at hs
      · next i m hsending =>
        simp only [bind_eq_some_iff, ite_none_right_eq_some, some.injEq] at hs
        obtain ⟨w, hw, -, rfl⟩ := hs
        obtain ⟨c, agreed, t, hp⟩ := h.pass hd hh
        obtain ⟨hi, -, hderef⟩ := hp.sending i m hsending
        obtain ⟨e, hm, hd⟩ := hderef w hw
        exact h.doneWith hh hp hi hw (by simp [hsending]) fun _ => by simp [hm, hd]
      · cases hs
    · cases hs
  | skip =>
    simp only [next] at hs
    split at hs
    · next hd hh =>
      split at hs
      · next i m hsending =>
        simp only [bind_eq_some_iff, ite_none_right_eq_some, some.injEq] at hs
        obtain ⟨w, hw, hdone, rfl⟩ := hs
        obtain ⟨c, agreed, t, hp⟩ := h.pass hd hh
        obtain ⟨hi, -, -⟩ := hp.sending i m hsending
        have hsent := @Inv.doneWith σ s c hd agreed t i w h hh hp hi hw [] (by simp) (by simp [hdone])
        rwa [append_nil, setWatcher_self (show (s.sent hd i).watchers i = some w from hw)] at hsent
      · cases hs
    · cases hs
  | abort =>
    simp only [next] at hs
    split at hs
    · next hd hh =>
      obtain ⟨⟨hstop, -⟩, rfl⟩ := of_guard hs
      exact h.release hh (.inr hstop)
    · cases hs
  | finish =>
    simp only [next] at hs
    split at hs
    · next hd hh =>
      obtain ⟨htodo, rfl⟩ := of_guard hs
      exact h.release hh (.inl htodo)
    · cases hs
  | receive i =>
    simp only [next] at hs
    split at hs
    · next w hw =>
      split at hs
      · next m rest hch =>
        simp only [map_eq_some_iff] at hs
        obtain ⟨e, hm, rfl⟩ := hs
        refine h.setWatcher hw rfl rfl rfl ?_ fun hdone => ⟨hdone, ?_⟩
        · rw [hch]
          exact subset_cons_self m rest
        · simp [hch, hm]
      · cases hs
    · cases hs
  | watch id =>
    simp only [next, ite_none_right_eq_some, some.injEq, isNone_iff_eq_none] at hs
    obtain ⟨⟨hidle, -⟩, rfl⟩ := hs
    exact h.watch hidle id
  | leave i =>
    simp only [next, map_eq_some_iff] at hs
    obtain ⟨w, hw, rfl⟩ := hs
    exact h.setWatcher hw rfl rfl rfl (List.Subset.refl _) nofun
  | unwatch i =>
    simp only [next, ite_none_right_eq_some, some.injEq, isNone_iff_eq_none] at hs
    obtain ⟨hidle, rfl⟩ := hs
    refine h.unwatch hidle fun j w hw => ?_
    split at hw
    · cases hw
    · exact hw
  | stop =>
    simp only [next, some.injEq] at hs
    subst hs
    refine ⟨h.refs, h.known, h.since, h.follows, fun i w _ _ hstop => (by cases hstop), fun hd hh => ?_⟩
    obtain ⟨c, agreed, t, hp⟩ := h.pass hd hh
    exact ⟨c, agreed, t, hp.mono rfl rfl rfl rfl (.refl _) (fun i m hm => ⟨hm, (hp.sending i m hm).1⟩)
      fun i w hw => ⟨w, hw, rfl, rfl, .inl⟩⟩
  | shutdown =>
    simp only [next, ite_none_right_eq_some, some.injEq, isNone_iff_eq_none] at hs
    obtain ⟨⟨hidle, -⟩, rfl⟩ := hs
    exact h.unwatch hidle fun i w hw => by cases hw

/-- What a connected watcher has read and has still to read is what is derived for it from the changes since it
connected, and leads from what was visible to it then to what is visible to it now. -/
def Faithful (s : State σ) : Prop :=
  ∀ i w, s.watchers i = some w → w.done = false → s.stopping = false →
    w.received ++ w.ch.filterMap (Message.deref s.cells) = ((s.handledFor i).drop w.since).filterMap (derived w.id) ∧
    (s.busyWith i = false →
      replay (view w.id w.initial) (w.received ++ w.ch.filterMap (Message.deref s.cells)) = some (view w.id s.cache))

theorem Inv.faithful (h : Inv s) : Faithful s := by
  intro i w hw hdone hstop
  have htold := h.told i w hw hdone hstop
  refine ⟨htold, fun hbusy => ?_⟩
  obtain ⟨hoccur, hcache⟩ := h.follows i w hw
  have hhandled : s.handledFor i = s.history := by simp [State.handledFor, hbusy]
  rw [htold, hhandled, replay_history hoccur, hcache]

/-- Whichever watchers are connected and in whichever order they are visited, each is told what is derived for it, in
every run in which the watchers agree on every update. -/
theorem faithful_of_agree [DecidableEq σ] {cache : Cache σ}
    (h : Reachable (· = State.start cache) (Steps Allowed next) s) : Faithful s := by
  refine (h.invariant Inv ?_ ?_).faithful
  · rintro _ rfl
    exact inv_start cache
  · rintro s s' hinv ⟨l, hok, hs⟩
    exact inv_next hinv hok hs

/-- The state store of the checkout is opened to the cart. -/
def checkoutStore (scopes : List String) (version : String) : Manifest Unit := ⟨"default", "statestore", scopes, version, ()⟩

def shopCache : Cache Unit := fun key => if key = ("default", "statestore") then some (checkoutStore ["checkout"] "1") else none

def openToCart : Change Unit := .update (checkoutStore ["checkout"] "1") (checkoutStore ["cart", "checkout"] "2")

/-- Both sidecars of the cart are told that the state store is created, also the one that is visited second. -/
theorem faithful_to_cart :
    ∃ s, runFrom (guarded Allowed next) (State.start shopCache)
        [.watch ⟨"default", "cart"⟩, .watch ⟨"default", "orders"⟩, .watch ⟨"default", "cart"⟩, .change openToCart, .visit 2,
          .send, .visit 1, .visit 0, .send, .finish, .receive 0, .receive 2] = some s ∧
      [0, 1, 2].map (fun i => (s.watchers i).map (·.received)) =
        [some [⟨checkoutStore ["cart", "checkout"] "2", .created⟩], some [],
          some [⟨checkoutStore ["cart", "checkout"] "2", .created⟩]] ∧ Faithful s := by
  simp only [← and_assoc]
  refine Exists.imp (fun s hs => ⟨hs, ?_⟩) ⟨_, rfl, rfl⟩
  exact faithful_of_agree (reachable_of_guarded (.start rfl) hs.1)

/-- The checkout is told that its state store is created, because the cart was visited before it. -/
theorem checkout_is_told_created :
    ∃ s w, runFrom next (State.start shopCache)
        [.watch ⟨"default", "cart"⟩, .watch ⟨"default", "checkout"⟩, .change openToCart, .visit 0, .send, .visit 1, .send,
          .finish, .receive 1] = some s ∧
      s.watchers 1 = some w ∧ w.id = ⟨"default", "checkout"⟩ ∧ w.done = false ∧ s.stopping = false ∧
      w.received = [⟨checkoutStore ["cart", "checkout"] "2", .created⟩] ∧
      s.history.filterMap (derived w.id) = [⟨checkoutStore ["cart", "checkout"] "2", .updated⟩] ∧
      replay (view w.id w.initial) w.received = none ∧ ¬ Faithful s := by
  refine ⟨_, _, rfl, rfl, rfl, rfl, rfl, rfl, by decide, rfl, fun h => ?_⟩
  have htold := (h 1 _ rfl rfl rfl).1
  revert htold
  decide

end Dapr.Operator
