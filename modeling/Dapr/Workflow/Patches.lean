import Mathlib.Data.List.Chain
import Mathlib.Data.List.Count
import Dapr.Workflow.Event
/-!
# Patches

The code of a workflow reports, when a turn starts, which of its patches are applied. A turn whose
list does not begin with the patches of the history stalls. Of the others only the patches that
are new are recorded, so that the lists recorded in the history, one after the other, are the list
last reported.
-/

namespace Dapr.Workflow

open List

def HistoryEvent.isWorkflowStarted (e : HistoryEvent) : Bool :=
  match e.eventType with
  | .workflowStarted _ => true
  | _ => false

def HistoryEvent.getVersion (e : HistoryEvent) : Option WorkflowVersion :=
  match e.eventType with
  | .workflowStarted version => version
  | _ => none

/-- The patches of an optional version; of none there are none. -/
def getPatches (version : Option WorkflowVersion) : List String := (version.map WorkflowVersion.patches).getD []

def collectAllPatches (events : List HistoryEvent) : List String :=
  events.foldl (fun allPatches e => allPatches ++ getPatches e.getVersion) []

def getLastPatches (events : List HistoryEvent) : List String :=
  getPatches (events.reverse.findSome? HistoryEvent.getVersion)

/-- Why a turn stalls, if its patches do not begin with those of the history. -/
def hasPatchMismatch (oldEvents newEvents : List HistoryEvent) : Option String :=
  let historyPatches := collectAllPatches oldEvents
  let currentPatches := getLastPatches newEvents
  if historyPatches.length = 0 then none
  else if historyPatches.length ≤ currentPatches.length ∧ historyPatches = currentPatches.take historyPatches.length then
    none
  else
    let joined := ", ".intercalate
    some s!"Patch mismatch. History patches: [{joined historyPatches}], current patches: [{joined currentPatches}]. "

def countPatch (counts : String → Nat) (p : String) : String → Nat := Function.update counts p (counts p + 1)

def existingPatchCounts (oldEvents : List HistoryEvent) : String → Nat :=
  oldEvents.foldl (fun counts e => (getPatches e.getVersion).foldl countPatch counts) fun _ => 0

/-- The patches that the counts do not cover. -/
def newPatches (counts : String → Nat) : List String → List String
  | [] => []
  | p :: ps =>
    if counts p > 0 then newPatches (Function.update counts p (counts p - 1)) ps
    else p :: newPatches counts ps

def compactVersion (oldEvents : List HistoryEvent) (version : Option WorkflowVersion) : Option WorkflowVersion :=
  match version with
  | none => none
  | some v =>
    if v.patches.length > 0 then
      let patches := newPatches (existingPatchCounts oldEvents) v.patches
      if patches.length > 0 then some ⟨patches, none⟩ else none
    else some v

/-- The new events with the start of the turn, the first if there are several, reporting no more
than the patches the old events do not have. -/
def compactPatches (oldEvents : List HistoryEvent) : List HistoryEvent → List HistoryEvent
  | [] => []
  | e :: es =>
    match e.eventType with
    | .workflowStarted version => { e with eventType := .workflowStarted (compactVersion oldEvents version) } :: es
    | _ => e :: compactPatches oldEvents es

/-! ## What the functions compute -/

section
variable {e : HistoryEvent} {events oldEvents newEvents xs ys : List HistoryEvent}

theorem collectAllPatches_eq (events : List HistoryEvent) :
    collectAllPatches events = events.flatMap fun e => getPatches e.getVersion := by
  have hloop : ∀ acc, events.foldl (fun allPatches e => allPatches ++ getPatches e.getVersion) acc =
      acc ++ events.flatMap fun e => getPatches e.getVersion := by
    induction events with
    | nil => simp
    | cons e es ih =>
      intro acc
      rw [foldl_cons, ih, flatMap_cons, append_assoc]
  exact hloop []

theorem collectAllPatches_append (xs ys : List HistoryEvent) :
    collectAllPatches (xs ++ ys) = collectAllPatches xs ++ collectAllPatches ys := by
  simp only [collectAllPatches_eq, flatMap_append]

theorem getVersion_of_not_started (h : e.isWorkflowStarted = false) : e.getVersion = none := by
  unfold HistoryEvent.isWorkflowStarted at h
  unfold HistoryEvent.getVersion
  cases ht : e.eventType <;> simp_all

theorem collectAllPatches_of_not_started (h : ∀ e ∈ events, e.isWorkflowStarted = false) :
    collectAllPatches events = [] := by
  rw [collectAllPatches_eq]
  refine flatMap_eq_nil_iff.2 fun e he => ?_
  simp [getPatches, getVersion_of_not_started (h e he)]

theorem foldl_countPatch (ps : List String) (counts : String → Nat) (p : String) :
    ps.foldl countPatch counts p = counts p + ps.count p := by
  induction ps generalizing counts with
  | nil => simp
  | cons q ps ih =>
    rw [foldl_cons, ih, countPatch]
    by_cases hq : p = q
    · subst hq
      simp
      omega
    · simp [Function.update_of_ne hq, Ne.symm hq]

theorem existingPatchCounts_eq (events : List HistoryEvent) (p : String) :
    existingPatchCounts events p = (collectAllPatches events).count p := by
  have hloop : ∀ counts : String → Nat,
      events.foldl (fun counts e => (getPatches e.getVersion).foldl countPatch counts) counts p =
        counts p + (events.flatMap fun e => getPatches e.getVersion).count p := by
    induction events with
    | nil => simp
    | cons e es ih =>
      intro counts
      rw [foldl_cons, ih, foldl_countPatch, flatMap_cons, count_append, Nat.add_assoc]
  unfold existingPatchCounts
  rw [hloop, collectAllPatches_eq, Nat.zero_add]

/-- Patches that begin with those counted lose just these. -/
theorem newPatches_append (old rest : List String) (counts : String → Nat) (h : ∀ p, counts p = old.count p) :
    newPatches counts (old ++ rest) = rest := by
  induction old generalizing counts with
  | nil =>
    rw [nil_append]
    induction rest with
    | nil => rfl
    | cons p ps ih => simp [newPatches, h, ih]
  | cons q old ih =>
    have hpos : counts q > 0 := by simp [h]
    rw [cons_append, newPatches, if_pos hpos]
    refine ih _ fun p => ?_
    by_cases hp : p = q
    · subst hp
      simp [h]
    · simp [Function.update_of_ne hp, h, Ne.symm hp]

theorem hasPatchMismatch_eq_none :
    hasPatchMismatch oldEvents newEvents = none ↔ collectAllPatches oldEvents <+: getLastPatches newEvents := by
  unfold hasPatchMismatch
  dsimp only
  split
  · next h => simp [eq_nil_of_length_eq_zero h]
  · split
    · next h => simpa using (prefix_iff_eq_take.2 h.2)
    · next h =>
      refine iff_of_false (by simp) fun hpre => h ⟨hpre.length_le, prefix_iff_eq_take.1 hpre⟩

/-! ## One turn -/

/-- The new events of a turn: one of them is its start. -/
def StartsOnce (newEvents : List HistoryEvent) : Prop := newEvents.countP HistoryEvent.isWorkflowStarted = 1

theorem exists_start (h : StartsOnce newEvents) :
    ∃ front e version behind, newEvents = front ++ e :: behind ∧ e.eventType = .workflowStarted version ∧
      (∀ x ∈ front, x.isWorkflowStarted = false) ∧ ∀ x ∈ behind, x.isWorkflowStarted = false := by
  unfold StartsOnce at h
  obtain ⟨e, he, hstart⟩ := countP_pos_iff.1 (show 0 < newEvents.countP HistoryEvent.isWorkflowStarted by omega)
  obtain ⟨front, behind, rfl⟩ := append_of_mem he
  rw [countP_append, countP_cons_of_pos hstart] at h
  have hfront : front.countP HistoryEvent.isWorkflowStarted = 0 := by omega
  have hbehind : behind.countP HistoryEvent.isWorkflowStarted = 0 := by omega
  have htype : ∃ version, e.eventType = .workflowStarted version := by
    unfold HistoryEvent.isWorkflowStarted at hstart
    cases ht : e.eventType <;> simp_all
  obtain ⟨version, ht⟩ := htype
  refine ⟨front, e, version, behind, rfl, ht, ?_, ?_⟩
  · simpa using countP_eq_zero.1 hfront
  · simpa using countP_eq_zero.1 hbehind

variable {behind front : List HistoryEvent} {version : Option WorkflowVersion}

/-- The patches of a turn are those its start reports. -/
theorem getLastPatches_split (ht : e.eventType = .workflowStarted version)
    (hfront : ∀ x ∈ front, x.isWorkflowStarted = false) (hbehind : ∀ x ∈ behind, x.isWorkflowStarted = false) :
    getLastPatches (front ++ e :: behind) = getPatches version := by
  have hnone : ∀ {xs : List HistoryEvent}, (∀ x ∈ xs, x.isWorkflowStarted = false) →
      xs.reverse.findSome? HistoryEvent.getVersion = none := by
    intro xs hxs
    refine findSome?_eq_none_iff.2 fun x hx => getVersion_of_not_started (hxs x (mem_reverse.1 hx))
  have hv : e.getVersion = version := by simp [HistoryEvent.getVersion, ht]
  cases version with
  | none => simp [getLastPatches, hnone hfront, hnone hbehind, hv]
  | some v => simp [getLastPatches, hnone hbehind, hv]

theorem compactPatches_split (ht : e.eventType = .workflowStarted version)
    (hfront : ∀ x ∈ front, x.isWorkflowStarted = false) : compactPatches oldEvents (front ++ e :: behind) =
      front ++ { e with eventType := .workflowStarted (compactVersion oldEvents version) } :: behind := by
  induction front with
  | nil => simp [compactPatches, ht]
  | cons x front ih =>
    obtain ⟨hx, hrest⟩ := forall_mem_cons.1 hfront
    have hcons : ∀ es, compactPatches oldEvents (x :: es) = x :: compactPatches oldEvents es := by
      intro es
      unfold HistoryEvent.isWorkflowStarted at hx
      cases hxt : x.eventType <;> simp_all [compactPatches]
    rw [cons_append, hcons, ih hrest, cons_append]

/-- Of a list that begins with the patches of the old events the rest is recorded. -/
theorem getPatches_compactVersion {rest : List String} (h : getPatches version = collectAllPatches oldEvents ++ rest) :
    getPatches (compactVersion oldEvents version) = rest := by
  cases version with
  | none =>
    have hnil := append_eq_nil_iff.1 h.symm
    rw [hnil.2]
    rfl
  | some v =>
    have hv : v.patches = collectAllPatches oldEvents ++ rest := h
    have hnew : newPatches (existingPatchCounts oldEvents) v.patches = rest := by
      rw [hv]
      exact newPatches_append _ _ _ (existingPatchCounts_eq oldEvents)
    simp only [compactVersion, hnew]
    split
    · split
      · rfl
      · next hr => simpa [getPatches] using (eq_nil_of_length_eq_zero (Nat.eq_zero_of_not_pos hr)).symm
    · next hlen =>
      have hnil : collectAllPatches oldEvents ++ rest = [] := by
        rw [← hv]
        exact eq_nil_of_length_eq_zero (Nat.eq_zero_of_not_pos hlen)
      rw [(append_eq_nil_iff.1 hnil).2]
      exact hv.trans hnil

/-- After a turn that does not stall, the history has the patches that the turn reported. -/
theorem collectAllPatches_turn (honce : StartsOnce newEvents) (hok : hasPatchMismatch oldEvents newEvents = none) :
    collectAllPatches (oldEvents ++ compactPatches oldEvents newEvents) = getLastPatches newEvents := by
  obtain ⟨front, e, version, behind, rfl, ht, hfront, hbehind⟩ := exists_start honce
  have hlast := getLastPatches_split ht hfront hbehind
  obtain ⟨rest, hrest⟩ := hasPatchMismatch_eq_none.1 hok
  rw [hlast] at hrest ⊢
  rw [compactPatches_split ht hfront]
  have hmiddle := getPatches_compactVersion hrest.symm
  rw [collectAllPatches_append, collectAllPatches_append, collectAllPatches_of_not_started hfront, nil_append,
    collectAllPatches_eq (_ :: behind), flatMap_cons, ← collectAllPatches_eq behind,
    collectAllPatches_of_not_started hbehind, append_nil, ← hrest]
  exact congrArg (collectAllPatches oldEvents ++ ·) hmiddle

end

/-! ## The turns of a generation -/

/-- A generation of a workflow: its history, and what the turns that did not stall reported. -/
structure Generation where
  history : List HistoryEvent
  reported : List (List String)

/-- A turn that stalls leaves none of its new events. -/
def Generation.turn (g : Generation) (newEvents : List HistoryEvent) : Generation :=
  match hasPatchMismatch g.history newEvents with
  | some _ => g
  | none => ⟨g.history ++ compactPatches g.history newEvents, g.reported ++ [getLastPatches newEvents]⟩

/-- The generation after some turns. -/
def Generation.after (turns : List (List HistoryEvent)) : Generation := turns.foldl Generation.turn ⟨[], []⟩

/-- The list last reported by a turn that reported patches. -/
def lastReported (reported : List (List String)) : List String := ((reported.filter (· ≠ [])).getLast?).getD []

theorem lastReported_concat (reported : List (List String)) (patches : List String) :
    lastReported (reported ++ [patches]) = if patches = [] then lastReported reported else patches := by
  unfold lastReported
  split
  · next h => simp [h]
  · next h => simp [h]

/-- The recorded patches are those last reported, and each list reported begins with the one before. -/
structure Generation.Growing (g : Generation) : Prop where
  recorded : collectAllPatches g.history = lastReported g.reported
  chain : g.reported.IsChain (· <+: ·)
  last : ∀ patches ∈ g.reported.getLast?, collectAllPatches g.history = patches

theorem Generation.Growing.turn {g : Generation} {newEvents : List HistoryEvent} (h : g.Growing)
    (honce : StartsOnce newEvents) : (g.turn newEvents).Growing := by
  unfold Generation.turn
  split
  · exact h
  · next hok =>
    have hnew := collectAllPatches_turn honce hok
    have hpre := hasPatchMismatch_eq_none.1 hok
    refine ⟨?_, ?_, ?_⟩
    · rw [hnew, lastReported_concat]
      split
      · next hnil =>
        -- a turn that reports nothing goes on only if nothing was recorded
        rw [hnil] at hpre ⊢
        rw [← h.recorded]
        exact (prefix_nil.1 hpre).symm
      · rfl
    · refine isChain_append.2 ⟨h.chain, isChain_singleton _, ?_⟩
      intro x hx y hy
      cases hy
      rw [← h.last x hx]
      exact hpre
    · intro patches hp
      rw [getLast?_concat] at hp
      cases hp
      exact hnew

/-- Along the turns of a generation the recorded patches are, in order, the list last reported, and
each list that is accepted begins with the one accepted before. -/
theorem patches_grow (turns : List (List HistoryEvent)) (honce : ∀ newEvents ∈ turns, StartsOnce newEvents) :
    collectAllPatches (Generation.after turns).history = lastReported (Generation.after turns).reported ∧
    (Generation.after turns).reported.IsChain (· <+: ·) := by
  have hgrowing : (Generation.after turns).Growing := by
    induction turns using reverseRecOn with
    | nil => exact ⟨rfl, .nil, nofun⟩
    | append_singleton turns newEvents ih =>
      have hafter : Generation.after (turns ++ [newEvents]) = (Generation.after turns).turn newEvents := by
        simp [Generation.after]
      rw [hafter]
      exact (ih fun x hx => honce x (mem_append_left _ hx)).turn (honce newEvents (by simp))
  exact ⟨hgrowing.recorded, hgrowing.chain⟩

def patchedStart (patches : List String) : List HistoryEvent :=
  [⟨-1, none, none, .workflowStarted (some ⟨patches, none⟩)⟩, ⟨-1, none, none, .eventRaised "approved" none⟩]

/-- The second turn stalls; the patch `tax` is applied twice. -/
def patchedTurns : List (List HistoryEvent) :=
  [patchedStart ["tax"], patchedStart ["rounding"], patchedStart ["tax", "discount", "tax"]]

theorem patches_grow_example :
    (Generation.after patchedTurns).reported = [["tax"], ["tax", "discount", "tax"]] ∧
    collectAllPatches (Generation.after patchedTurns).history =
      lastReported (Generation.after patchedTurns).reported :=
  ⟨by decide, (patches_grow patchedTurns (by unfold StartsOnce; decide)).1⟩

/-! ## The name of the version -/

/-- The name of an optional version; of none it is empty. -/
def getName (version : Option WorkflowVersion) : String := (version.bind WorkflowVersion.name).getD ""

/-- The name that the first start of a history reports, if it reports one. -/
def workflowVersion (events : List HistoryEvent) : Option String :=
  (events.find? HistoryEvent.isWorkflowStarted).bind fun ws =>
    let name := getName ws.getVersion
    if name ≠ "" then some name else none

/-- The history after some more turns, whose new events are compacted before they are saved. -/
def savedHistory (compact : List HistoryEvent → List HistoryEvent → List HistoryEvent) (history : List HistoryEvent)
    (turns : List (List HistoryEvent)) : List HistoryEvent :=
  turns.foldl (fun history newEvents => history ++ compact history newEvents) history

theorem savedHistory_uncompacted (history : List HistoryEvent) (turns : List (List HistoryEvent)) :
    savedHistory (fun _ newEvents => newEvents) history turns = history ++ turns.flatten := by
  induction turns generalizing history with
  | nil => simp [savedHistory]
  | cons newEvents turns ih =>
    rw [flatten_cons, ← append_assoc]
    exact ih (history ++ newEvents)

def HistoryEvent.compactStart (oldEvents : List HistoryEvent) (e : HistoryEvent) : HistoryEvent :=
  { e with eventType := .workflowStarted (compactVersion oldEvents e.getVersion) }

theorem find_compactPatches (oldEvents newEvents : List HistoryEvent) :
    (compactPatches oldEvents newEvents).find? HistoryEvent.isWorkflowStarted =
      (newEvents.find? HistoryEvent.isWorkflowStarted).map (·.compactStart oldEvents) := by
  induction newEvents with
  | nil => rfl
  | cons e es ih =>
    cases ht : e.eventType <;>
      simp [compactPatches, ht, HistoryEvent.isWorkflowStarted, HistoryEvent.compactStart, HistoryEvent.getVersion] <;>
      exact ih

/-- The first start of a history stays the first, and is compacted if it comes with one of the turns. -/
theorem find_savedHistory (history : List HistoryEvent) (turns : List (List HistoryEvent)) :
    ∃ oldEvents, (savedHistory compactPatches history turns).find? HistoryEvent.isWorkflowStarted =
      (history.find? HistoryEvent.isWorkflowStarted).or
        ((turns.flatten.find? HistoryEvent.isWorkflowStarted).map (·.compactStart oldEvents)) := by
  induction turns generalizing history with
  | nil => exact ⟨[], by simp [savedHistory]⟩
  | cons newEvents turns ih =>
    obtain ⟨oldEvents, hrest⟩ := ih (history ++ compactPatches history newEvents)
    rw [find?_append, find_compactPatches, Option.or_assoc] at hrest
    rw [flatten_cons, find?_append]
    cases hnew : newEvents.find? HistoryEvent.isWorkflowStarted with
    | none =>
      rw [hnew] at hrest
      exact ⟨oldEvents, hrest⟩
    | some e =>
      rw [hnew] at hrest
      exact ⟨history, hrest⟩

/-- A version with patches loses its name. -/
theorem getName_compactVersion (oldEvents : List HistoryEvent) (version : Option WorkflowVersion) :
    getName (compactVersion oldEvents version) = if getPatches version = [] then getName version else "" := by
  cases version with
  | none => rfl
  | some v =>
    by_cases hnil : v.patches = []
    · simp [compactVersion, getPatches, hnil]
    · have hpos := length_pos_of_ne_nil hnil
      rw [if_neg (show getPatches (some v) ≠ [] from hnil)]
      simp only [compactVersion, if_pos hpos]
      split <;> rfl

/-- The history has a start already, or the first start of the turns does not report both patches and a name. -/
def KeepsName (history : List HistoryEvent) (turns : List (List HistoryEvent)) : Prop :=
  (history.find? HistoryEvent.isWorkflowStarted).isSome ∨
    ∀ e, turns.flatten.find? HistoryEvent.isWorkflowStarted = some e →
      getPatches e.getVersion = [] ∨ getName e.getVersion = ""

/-- Compacting the turns keeps the name of the version just where the first start has no patches or no name. -/
theorem version_kept_iff (history : List HistoryEvent) (turns : List (List HistoryEvent)) :
    workflowVersion (savedHistory compactPatches history turns) =
        workflowVersion (savedHistory (fun _ newEvents => newEvents) history turns) ↔ KeepsName history turns := by
  obtain ⟨oldEvents, hfirst⟩ := find_savedHistory history turns
  rw [savedHistory_uncompacted, workflowVersion, workflowVersion, hfirst, find?_append]
  cases hstart : history.find? HistoryEvent.isWorkflowStarted with
  | some e => exact iff_of_true rfl (.inl (by rw [hstart]; rfl))
  | none =>
    cases hturn : turns.flatten.find? HistoryEvent.isWorkflowStarted with
    | none => exact iff_of_true rfl (.inr fun e he => by rw [hturn] at he; cases he)
    | some e =>
      have hname := getName_compactVersion oldEvents e.getVersion
      have hversion : (e.compactStart oldEvents).getVersion = compactVersion oldEvents e.getVersion := rfl
      simp only [KeepsName, hstart, hturn, Option.none_or, Option.map_some, Option.bind_some, hversion, hname,
        Option.isSome_none, Bool.false_eq_true, false_or, Option.some.injEq, forall_eq']
      by_cases hpatches : getPatches e.getVersion = []
      · simp [hpatches]
      · by_cases hempty : getName e.getVersion = "" <;> simp [hpatches]

/-- A worker that runs version `v2` of a workflow reports a patch with it. -/
theorem name_lost_with_patch :
    let turn := [⟨-1, none, none, .workflowStarted (some ⟨["tax"], some "v2"⟩)⟩]
    workflowVersion (savedHistory (fun _ newEvents => newEvents) [] [turn]) = some "v2" ∧
      workflowVersion (savedHistory compactPatches [] [turn]) = none := by
  decide

end Dapr.Workflow
