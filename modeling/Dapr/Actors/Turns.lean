import Dapr.Actors.Lock
import Mathlib.Data.List.Nodup
import Mathlib.Data.List.TakeWhile
/-!
# Turns of an actor

The depth of a flight is the number of the calls that are in it. The front of the queue has a call and
is started, and nothing behind it is. So the calls that are granted are in the front flight, and a
flight leaves the queue only without calls: no flight is granted before one that still waits.
-/

namespace Dapr.Actors

open Lib.Threads Lib.Runs List

variable {cfg : Config} {s s' : State}

def Pc.flight : Pc → Option Nat
  | .calling _ => none
  | .waiting serial => some serial
  | .leaving serial _ => some serial
  | .granted serial => some serial
  | .releasing serial => some serial
  | .ended _ => none

@[simp] theorem Pc.flight_waiting (serial : Nat) : (Pc.waiting serial).flight = some serial := rfl

@[simp] theorem Pc.flight_ended (error : Option Error) : (Pc.ended error).flight = none := rfl

/-- The flight that a call was granted in, while it is not released. -/
def Pc.held : Pc → Option Nat
  | .granted serial => some serial
  | .releasing serial => some serial
  | _ => none

variable {pc : Pc} {i serial : Nat} {front v : Inflight} {started : Bool} {rest : List Inflight} {t : Call}
  {id : String}

theorem Pc.flight_of_held (h : pc.held = some serial) : pc.flight = some serial := by
  cases pc <;> first | exact h | cases h

def inFlight (serial : Nat) (t : Call) : Bool := t.pc.flight = some serial

/-- The bound of a flight's depth: the first call is not checked. -/
def Config.limit (cfg : Config) : Nat := if cfg.reentrancyEnabled then max 1 cfg.maxStackDepth.toNat else 1

/-- What holds of the queue, except for the front's depth. -/
structure Queue (cfg : Config) (next : Nat) (inflights : List Inflight) : Prop where
  sorted : inflights.Pairwise (·.serial < ·.serial)
  below : ∀ v ∈ inflights, v.serial < next
  behind : ∀ v ∈ inflights.tail, v.started = false
  limit : ∀ v ∈ inflights, v.depth ≤ cfg.limit

/-- What holds of the calls and the flights that they are in. -/
structure Calls (inflights : List Inflight) (calls : List Call) : Prop where
  queued : ∀ t ∈ calls, ∀ serial, t.pc.flight = some serial → ∃ v ∈ inflights, v.serial = serial ∧ v.id = t.id
  depth : ∀ v ∈ inflights, v.depth = countAt (inFlight v.serial) calls
  started : ∀ t ∈ calls, ∀ serial, t.pc.held = some serial → ∃ v ∈ inflights, v.serial = serial ∧ v.started = true

/-- The front has a call and is started, and calls were granted in the order of their flights. -/
structure Inv (cfg : Config) (s : State) : Prop where
  queue : Queue cfg s.next s.inflights
  calls : Calls s.inflights s.calls
  front : ∀ v ∈ s.inflights.head?, 0 < v.depth ∧ v.started = true
  grants : ∀ serial ∈ s.grants, serial < s.next ∧ ∀ v ∈ s.inflights, serial ≤ v.serial
  order : s.grants.Pairwise (· ≤ ·)

/-! ## The queue -/

section
variable {inflights : List Inflight} {f : Nat → Nat} {next : Nat}

@[simp] theorem adjusted_serial (v : Inflight) : (adjusted serial f v).serial = v.serial := by
  unfold adjusted
  split <;> rfl

@[simp] theorem adjusted_id (v : Inflight) : (adjusted serial f v).id = v.id := by
  unfold adjusted
  split <;> rfl

@[simp] theorem adjusted_started (v : Inflight) : (adjusted serial f v).started = v.started := by
  unfold adjusted
  split <;> rfl

theorem adjusted_depth (v : Inflight) :
    (adjusted serial f v).depth = if v.serial = serial then f v.depth else v.depth := by
  unfold adjusted
  split <;> rfl

theorem Queue.adjust (h : Queue cfg next inflights) (hf : ∀ v ∈ inflights, v.serial = serial → f v.depth ≤ cfg.limit) :
    Queue cfg next (adjust serial f inflights) where
  sorted := by
    rw [Actors.adjust, pairwise_map]
    simpa using h.sorted
  below v hv := by
    obtain ⟨u, hu, rfl⟩ := mem_map.1 hv
    simpa using h.below u hu
  behind v hv := by
    rw [Actors.adjust, ← map_tail] at hv
    obtain ⟨u, hu, rfl⟩ := mem_map.1 hv
    simpa using h.behind u hu
  limit v hv := by
    obtain ⟨u, hu, rfl⟩ := mem_map.1 hv
    rw [adjusted_depth]
    split
    · next heq => exact hf u hu heq
    · exact h.limit u hu

theorem front_adjust (h : v ∈ (adjust serial f inflights).head?) : ∃ u ∈ inflights.head?, adjusted serial f u = v := by
  simpa [adjust] using h

theorem first_adjust {g : Nat} (h : ∀ v ∈ inflights, g ≤ v.serial) : ∀ v ∈ adjust serial f inflights, g ≤ v.serial := by
  intro v hv
  obtain ⟨u, hu, rfl⟩ := mem_map.1 hv
  simpa using h u hu

theorem Queue.weaken (h : Queue cfg next inflights) : Queue cfg (next + 1) inflights :=
  ⟨h.sorted, fun v hv => Nat.lt_succ_of_lt (h.below v hv), h.behind, h.limit⟩

theorem Config.one_le_limit (cfg : Config) : 1 ≤ cfg.limit := by
  unfold Config.limit
  split
  · exact Nat.le_max_left 1 _
  · exact Nat.le_refl 1

theorem Queue.append (h : Queue cfg next inflights) (id : String) (hstarted : inflights ≠ [] → started = false) :
    Queue cfg (next + 1) (inflights ++ [⟨next, id, 1, started⟩]) where
  sorted := pairwise_concat h.sorted h.below
  below := forall_mem_concat h.weaken.below (Nat.lt_succ_self next)
  behind v hv := by
    cases hq : inflights with
    | nil => simp [hq] at hv
    | cons front rest =>
      rw [hq] at hv
      rcases mem_append.1 hv with hv | hv
      · exact h.behind v (by rwa [hq])
      · obtain rfl := mem_singleton.1 hv
        exact hstarted (by simp [hq])
  limit := forall_mem_concat h.limit cfg.one_le_limit

/-- A started flight is the front, which arrived before the others. -/
theorem Queue.eq_front (h : Queue cfg next inflights) (hv : v ∈ inflights) (hstarted : v.started = true) :
    inflights.head? = some v ∧ ∀ u ∈ inflights, v.serial ≤ u.serial := by
  cases inflights with
  | nil => cases hv
  | cons front rest =>
    rcases mem_cons.1 hv with rfl | hv
    · refine ⟨rfl, fun u hu => ?_⟩
      rcases mem_cons.1 hu with rfl | hu
      · exact le_rfl
      · exact Nat.le_of_lt (rel_of_pairwise_cons h.sorted hu)
    · rw [h.behind v hv] at hstarted
      cases hstarted

/-- The front is left out with the flights behind it that have no call; the next one is started. -/
theorem Queue.next_front (h : Queue cfg next (front :: rest)) :
    Queue cfg next (startFront (rest.dropWhile (·.depth = 0))) := by
  have hsub : (rest.dropWhile (·.depth = 0)).Sublist (front :: rest) :=
    (dropWhile_sublist _).trans (sublist_cons_self front rest)
  have hsorted := h.sorted.sublist hsub
  cases hq : rest.dropWhile (·.depth = 0) with
  | nil => exact ⟨.nil, by simp [startFront], by simp [startFront], by simp [startFront]⟩
  | cons v behind =>
    rw [hq] at hsub hsorted
    have hmem : ∀ u ∈ startFront (v :: behind), ∃ w ∈ front :: rest, u.serial = w.serial ∧ u.depth = w.depth := by
      intro u hu
      rcases mem_cons.1 hu with rfl | hu
      · exact ⟨v, hsub.subset mem_cons_self, rfl, rfl⟩
      · exact ⟨u, hsub.subset (mem_cons_of_mem _ hu), rfl, rfl⟩
    refine ⟨?_, fun u hu => ?_, fun u hu => ?_, fun u hu => ?_⟩
    · exact pairwise_cons.2 (pairwise_cons.1 hsorted)
    · obtain ⟨w, hw, hserial, -⟩ := hmem u hu
      exact hserial ▸ h.below w hw
    · have htail : behind ⊆ rest := fun x hx =>
        (dropWhile_sublist _).subset (hq ▸ mem_cons_of_mem v hx)
      exact h.behind u (htail hu)
    · obtain ⟨w, hw, -, hdepth⟩ := hmem u hu
      exact hdepth ▸ h.limit w hw

end

/-! ## The calls -/

section
variable {inflights : List Inflight} {calls : List Call} {t' : Call}

theorem inFlight_iff : inFlight serial t = true ↔ t.pc.flight = some serial := by simp [inFlight]

/-- A call that is in no flight before or afterwards, or stays in its flight. -/
theorem Calls.move (h : Calls inflights calls) (hi : calls[i]? = some t) (hflight : t'.pc.flight = t.pc.flight)
    (hid : ∀ serial, t.pc.flight = some serial → t'.id = t.id)
    (hheld : ∀ serial, t'.pc.held = some serial →
      t.pc.held = some serial ∨ ∃ v ∈ inflights, v.serial = serial ∧ v.started = true) :
    Calls inflights (calls.set i t') where
  queued := by
    refine forall_mem_set h.queued fun serial hserial => ?_
    rw [hflight] at hserial
    obtain ⟨v, hv, hvs, hvid⟩ := h.queued t (mem_of_getElem? hi) serial hserial
    exact ⟨v, hv, hvs, hvid.trans (hid serial hserial).symm⟩
  depth v hv := by
    rw [countAt_set_of_eq hi (by simp [inFlight, hflight])]
    exact h.depth v hv
  started := by
    refine forall_mem_set h.started fun serial hserial => ?_
    rcases hheld serial hserial with hheld | hstarted
    · exact h.started t (mem_of_getElem? hi) serial hheld
    · exact hstarted

/-- A call enters or leaves a flight, whose depth goes with it. -/
theorem Calls.adjust (h : Calls inflights calls) {f : Nat → Nat} (hi : calls[i]? = some t)
    (hdepth : ∀ v ∈ inflights, v.serial = serial → f v.depth = countAt (inFlight serial) (calls.set i t'))
    (hother : ∀ other, other ≠ serial → inFlight other t' = inFlight other t)
    (hqueued : ∀ serial, t'.pc.flight = some serial → ∃ v ∈ inflights, v.serial = serial ∧ v.id = t'.id)
    (hheld : t'.pc.held = none) : Calls (adjust serial f inflights) (calls.set i t') where
  queued u hu serial' hserial := by
    obtain ⟨v, hv, hvs, hvid⟩ := forall_mem_set h.queued hqueued u hu serial' hserial
    exact ⟨adjusted serial f v, mem_map_of_mem hv, by simpa using hvs, by simpa using hvid⟩
  depth v hv := by
    obtain ⟨u, hu, rfl⟩ := mem_map.1 hv
    rw [adjusted_depth, adjusted_serial]
    split
    · next heq => rw [hdepth u hu heq, heq]
    · next hne =>
      rw [countAt_set_of_eq hi (hother u.serial hne)]
      exact h.depth u hu
  started u hu serial' hserial := by
    obtain ⟨v, hv, hvs, hstarted⟩ := forall_mem_set h.started (by simp [hheld]) u hu serial' hserial
    exact ⟨adjusted serial f v, mem_map_of_mem hv, by simpa using hvs, by simpa using hstarted⟩

/-- A call that is in no flight yet. -/
theorem Calls.call (h : Calls inflights calls) (hnone : t.pc.flight = none) : Calls inflights (calls ++ [t]) where
  queued := forall_mem_concat h.queued (by simp [hnone])
  depth v hv := by
    rw [countAt_append, weight_of_neg (by simp [inFlight, hnone]), h.depth v hv, Nat.add_zero]
  started := by
    refine forall_mem_concat h.started fun serial hserial => ?_
    have hflight := Pc.flight_of_held hserial
    rw [hnone] at hflight
    cases hflight

/-- A call that is in no flight opens one. -/
theorem Calls.append (h : Calls inflights calls) (hi : calls[i]? = some t) (hnone : t.pc.flight = none) {next : Nat}
    (hbelow : ∀ v ∈ inflights, v.serial < next) (id : String) (started : Bool) :
    Calls (inflights ++ [⟨next, id, 1, started⟩]) (calls.set i ⟨id, .waiting next⟩) where
  queued u hu serial hserial := by
    rcases mem_or_eq_of_mem_set hu with hu | rfl
    · obtain ⟨v, hv, hvs⟩ := h.queued u hu serial hserial
      exact ⟨v, mem_append_left _ hv, hvs⟩
    · obtain rfl : next = serial := by simpa using hserial
      exact ⟨_, mem_append_right _ (mem_singleton_self _), rfl, rfl⟩
  depth v hv := by
    have hcount := countAt_set (inFlight v.serial) hi ⟨id, .waiting next⟩
    have hbefore : weight (inFlight v.serial) t = 0 := weight_of_neg (by simp [inFlight, hnone])
    rcases mem_append.1 hv with hv | hv
    · have hafter : weight (inFlight v.serial) (⟨id, .waiting next⟩ : Call) = 0 := by
        have := hbelow v hv
        exact weight_of_neg (by simp [inFlight]; omega)
      have := h.depth v hv
      omega
    · obtain rfl := mem_singleton.1 hv
      have hafter : weight (inFlight next) (⟨id, .waiting next⟩ : Call) = 1 := weight_of_pos (by simp [inFlight])
      have hzero : countAt (inFlight next) calls = 0 := by
        refine countAt_eq_zero.2 fun u hu => ?_
        rw [← Bool.not_eq_true, inFlight_iff]
        intro hflight
        obtain ⟨v, hv, hvs, -⟩ := h.queued u hu next hflight
        exact absurd (hbelow v hv) (by omega)
      simp only at hcount hbefore ⊢
      omega
  started u hu serial hserial := by
    rcases mem_or_eq_of_mem_set hu with hu | rfl
    · obtain ⟨v, hv, hvs⟩ := h.started u hu serial hserial
      exact ⟨v, mem_append_left _ hv, hvs⟩
    · cases hserial

theorem mem_startFront (h : v ∈ inflights) : ∃ u ∈ startFront inflights, u.serial = v.serial ∧ u.id = v.id := by
  cases inflights with
  | nil => cases h
  | cons front rest =>
    rcases mem_cons.1 h with rfl | h
    · exact ⟨_, mem_cons_self, rfl, rfl⟩
    · exact ⟨v, mem_cons_of_mem _ h, rfl, rfl⟩

theorem of_mem_startFront {u : Inflight} (h : u ∈ startFront inflights) :
    ∃ v ∈ inflights, u.serial = v.serial ∧ u.depth = v.depth := by
  cases inflights with
  | nil => cases h
  | cons front rest =>
    rcases mem_cons.1 h with rfl | h
    · exact ⟨front, mem_cons_self, rfl, rfl⟩
    · exact ⟨u, mem_cons_of_mem _ h, rfl, rfl⟩

theorem mem_dropWhile (h : v ∈ inflights) (hdepth : 0 < v.depth) : v ∈ inflights.dropWhile (·.depth = 0) := by
  rw [← takeWhile_append_dropWhile (l := inflights), mem_append] at h
  refine h.resolve_left fun hskipped => ?_
  have hzero : v.depth = 0 := by simpa using mem_takeWhile_imp hskipped
  omega

/-- The front has no call and is taken off, with what is skipped behind it. -/
theorem Calls.next_front (h : Calls (front :: rest) calls) (hbehind : ∀ v ∈ rest, v.started = false)
    (hdepth : front.depth = 0) : Calls (startFront (rest.dropWhile (·.depth = 0))) calls := by
  have hsub : ∀ v ∈ rest.dropWhile (·.depth = 0), v ∈ rest := fun v hv => (dropWhile_sublist _).subset hv
  -- a flight with a call is not taken off
  have hkept : ∀ u ∈ calls, ∀ serial, u.pc.flight = some serial → ∀ v ∈ front :: rest, v.serial = serial →
      v ∈ rest.dropWhile (·.depth = 0) := by
    intro u hu serial hserial v hv hvs
    have hpos : 0 < v.depth := by
      obtain ⟨j, hj⟩ := getElem?_of_mem hu
      rw [h.depth v hv]
      exact countAt_pos hj (inFlight_iff.2 (hvs ▸ hserial))
    rcases mem_cons.1 hv with rfl | hv
    · omega
    · exact mem_dropWhile hv hpos
  refine ⟨fun u hu serial hserial => ?_, fun u hu => ?_, fun u hu serial hserial => ?_⟩
  · obtain ⟨v, hv, hvs, hvid⟩ := h.queued u hu serial hserial
    obtain ⟨w, hw, hws, hwid⟩ := mem_startFront (hkept u hu serial hserial v hv hvs)
    exact ⟨w, hw, hws.trans hvs, hwid.trans hvid⟩
  · obtain ⟨v, hv, hserial, hsame⟩ := of_mem_startFront hu
    rw [hserial, hsame]
    exact h.depth v (mem_cons_of_mem _ (hsub v hv))
  · obtain ⟨v, hv, hvs, hstarted⟩ := h.started u hu serial hserial
    have hrest := hsub v (hkept u hu serial (Pc.flight_of_held hserial) v hv hvs)
    rw [hbehind v hrest] at hstarted
    cases hstarted

end

/-! ## Steps -/

theorem inv_start : Inv cfg State.start :=
  ⟨⟨.nil, by simp [State.start], by simp [State.start], by simp [State.start]⟩,
    ⟨by simp [State.start], by simp [State.start], by simp [State.start]⟩, by simp [State.start], by simp [State.start],
    .nil⟩

section
variable (h : Inv cfg s)
include h

/-- A step that changes no flight. -/
theorem Inv.move (hi : s.calls[i]? = some t) (hflight : pc.flight = t.pc.flight)
    (hid : ∀ serial, t.pc.flight = some serial → id = t.id) (hheld : ∀ serial, pc.held = some serial →
      t.pc.held = some serial ∨ ∃ v ∈ s.inflights, v.serial = serial ∧ v.started = true) : Inv cfg (s.move i id pc) :=
  ⟨h.queue, h.calls.move hi hflight hid hheld, h.front, h.grants, h.order⟩

/-- A call is granted while its flight is at the front. -/
theorem Inv.grant (hi : s.calls[i]? = some ⟨id, .waiting serial⟩) (hv : v ∈ s.inflights)
    (hvs : v.serial = serial) (hstarted : v.started = true) :
    Inv cfg { s.move i id (.granted serial) with grants := s.grants ++ [serial] } where
  queue := h.queue
  calls := by
    refine h.calls.move hi rfl (fun _ _ => rfl) fun serial' hserial => .inr ⟨v, hv, ?_, hstarted⟩
    obtain rfl : serial = serial' := by simpa [Pc.held] using hserial
    exact hvs
  front := h.front
  grants := forall_mem_concat h.grants ⟨hvs ▸ h.queue.below v hv, hvs ▸ (h.queue.eq_front hv hstarted).2⟩
  order := pairwise_concat h.order fun g hg => hvs ▸ (h.grants g hg).2 v hv

/-- A call opens a flight; the flight starts at once if it is the only one. -/
theorem Inv.open_flight (hi : s.calls[i]? = some t) (hnone : t.pc.flight = none) (id : String)
    (hstarted : started = s.inflights.head?.isNone) : Inv cfg { s.move i id (.waiting s.next) with
      inflights := s.inflights ++ [⟨s.next, id, 1, started⟩], next := s.next + 1 } where
  queue := by
    refine h.queue.append id fun hne => ?_
    rw [hstarted]
    cases hq : s.inflights with
    | nil => exact absurd hq hne
    | cons => rfl
  calls := h.calls.append hi hnone h.queue.below id started
  front v hv := by
    cases hq : s.inflights with
    | nil =>
      simp only [hq, nil_append, head?_cons, Option.mem_def, Option.some.injEq] at hv
      subst hv
      simp [hstarted, hq]
    | cons front rest =>
      refine h.front v ?_
      rw [hq] at hv ⊢
      exact hv
  grants serial hserial := by
    obtain ⟨hbelow, hfirst⟩ := h.grants serial hserial
    exact ⟨Nat.lt_succ_of_lt hbelow, forall_mem_concat hfirst (Nat.le_of_lt hbelow)⟩
  order := h.order

/-- A call joins the flight with its id. -/
theorem Inv.join (henabled : cfg.reentrancyEnabled = true) (hi : s.calls[i]? = some t)
    (hnone : t.pc.flight = none) (hv : v ∈ s.inflights) (hdepth : (v.depth : Int) + 1 ≤ cfg.maxStackDepth) :
    Inv cfg { s.move i v.id (.waiting v.serial) with
      inflights := adjust v.serial (· + 1) s.inflights, next := s.next + 1 } where
  queue := by
    refine h.queue.weaken.adjust fun u hu hus => ?_
    have hsame : u.depth = v.depth := by rw [h.calls.depth u hu, h.calls.depth v hv, hus]
    have hlimit : cfg.maxStackDepth.toNat ≤ cfg.limit := by
      rw [Config.limit, if_pos henabled]
      exact Nat.le_max_right 1 _
    omega
  calls := by
    refine h.calls.adjust hi (fun u hu hus => ?_) (fun other hother => ?_) (fun serial hserial => ?_) rfl
    · have hcount := countAt_set (inFlight v.serial) hi ⟨v.id, .waiting v.serial⟩
      rw [weight_of_neg (by simp [inFlight, hnone]), weight_of_pos (by simp [inFlight])] at hcount
      rw [h.calls.depth u hu, hus]
      exact hcount.symm
    · simp [inFlight, hnone, Ne.symm hother]
    · obtain rfl : v.serial = serial := by simpa using hserial
      exact ⟨v, hv, rfl, rfl⟩
  front u hu := by
    obtain ⟨w, hw, rfl⟩ := front_adjust hu
    obtain ⟨hpos, hstarted⟩ := h.front w hw
    refine ⟨?_, by simpa using hstarted⟩
    rw [adjusted_depth]
    split <;> omega
  grants serial hserial := by
    obtain ⟨hbelow, hfirst⟩ := h.grants serial hserial
    exact ⟨Nat.lt_succ_of_lt hbelow, first_adjust hfirst⟩
  order := h.order

/-- A call leaves its flight. If it was the last one of the front, the queue goes on. -/
theorem Inv.release (hi : s.calls[i]? = some t) (hflight : t.pc.flight = some serial) (id : String)
    (error : Option Error) : Inv cfg { s.move i id (.ended error) with inflights := release serial s.inflights } := by
  have hqueue : Queue cfg s.next (adjust serial (· - 1) s.inflights) :=
    h.queue.adjust fun v hv _ => Nat.le_trans (Nat.sub_le _ 1) (h.queue.limit v hv)
  have hcalls : Calls (adjust serial (· - 1) s.inflights) (s.calls.set i ⟨id, .ended error⟩) := by
    refine h.calls.adjust hi (fun u hu hus => ?_) (fun other hother => ?_) (nofun) rfl
    · have hcount := countAt_set (inFlight serial) hi ⟨id, .ended error⟩
      rw [weight_of_pos (inFlight_iff.2 hflight), weight_of_neg (by simp [inFlight])] at hcount
      rw [h.calls.depth u hu, hus]
      omega
    · simp [inFlight, hflight, Ne.symm hother]
  have hgrants : ∀ g ∈ s.grants, ∀ v ∈ adjust serial (· - 1) s.inflights, g ≤ v.serial := fun g hg =>
    first_adjust (h.grants g hg).2
  rw [Actors.release]
  cases hq : adjust serial (· - 1) s.inflights with
  | nil =>
    rw [hq] at hqueue hcalls
    exact ⟨hqueue, hcalls, by simp [advance], fun g hg => ⟨(h.grants g hg).1, by simp [advance]⟩, h.order⟩
  | cons front rest =>
    rw [hq] at hqueue hcalls hgrants
    by_cases hstay : 0 < front.depth ∨ front.serial ≠ serial
    · rw [advance, if_pos hstay]
      refine ⟨hqueue, hcalls, fun v hv => ?_, fun g hg => ⟨(h.grants g hg).1, hgrants g hg⟩, h.order⟩
      obtain rfl : front = v := by simpa using hv
      obtain ⟨w, hw, rfl⟩ := front_adjust (show front ∈ (adjust serial (· - 1) s.inflights).head? by rw [hq]; rfl)
      obtain ⟨hpos, hstarted⟩ := h.front w hw
      refine ⟨?_, by simpa using hstarted⟩
      rcases hstay with hstay | hstay
      · exact hstay
      · rw [adjusted_serial] at hstay
        rwa [adjusted_depth, if_neg hstay]
    · obtain ⟨hzero, -⟩ : front.depth = 0 ∧ front.serial = serial := by
        simpa using hstay
      rw [advance, if_neg hstay]
      refine ⟨hqueue.next_front, hcalls.next_front hqueue.behind hzero, fun v hv => ?_, fun g hg => ⟨(h.grants g hg).1, ?_⟩,
        h.order⟩
      · cases hrest : rest.dropWhile (·.depth = 0) with
        | nil => simp [hrest, startFront] at hv
        | cons first behind =>
          rw [hrest] at hv
          obtain rfl : { first with started := true } = v := by simpa [startFront] using hv
          have hnot := head?_dropWhile_not (·.depth = 0) rest
          rw [hrest] at hnot
          exact ⟨Nat.pos_of_ne_zero (by simpa using hnot), rfl⟩
      · intro v hv
        obtain ⟨u, hu, hserial, -⟩ := of_mem_startFront hv
        rw [hserial]
        exact hgrants g hg u (mem_cons_of_mem _ ((dropWhile_sublist _).subset hu))

theorem Inv.lock {req : Request} (hi : s.calls[i]? = some ⟨id, .calling req⟩) (id' : String)
    (ok : Bool) : (∀ inflights serial, handleLock cfg s.next s.inflights id' ok = .ok (inflights, serial) →
      Inv cfg { s.move i id' (.waiting serial) with inflights, next := s.next + 1 }) := by
  intro inflights serial hlock
  unfold handleLock at hlock
  split at hlock
  · obtain ⟨rfl, rfl⟩ : _ ∧ _ := by simpa using hlock
    exact h.open_flight hi rfl id' rfl
  · next hjoin =>
    simp only [not_or, Bool.not_eq_false] at hjoin
    split at hlock
    · next v hfind =>
      split at hlock
      · cases hlock
      · next hdepth =>
        obtain ⟨rfl, rfl⟩ : _ ∧ _ := by simpa using hlock
        obtain rfl : v.id = id' := by simpa using find?_some hfind
        exact h.join hjoin.2.1 hi rfl (mem_of_find?_eq_some hfind) (by omega)
    · obtain ⟨rfl, rfl⟩ : _ ∧ _ := by simpa using hlock
      refine h.open_flight hi rfl id' ?_
      cases hq : s.inflights with
      | nil => simp [hq] at hjoin
      | cons => rfl

theorem Inv.step {l : Label} (hs : step cfg s l = some s') : Inv cfg s' := by
  cases l with
  | call req =>
    cases hs
    exact ⟨h.queue, h.calls.call rfl, h.front, h.grants, h.order⟩
  | giveUp i error =>
    simp only [Actors.step] at hs
    split at hs
    · next id req hi =>
      obtain ⟨-, rfl⟩ := of_guard hs
      exact h.move hi rfl (nofun) nofun
    · cases hs
  | lock i uuid =>
    simp only [Actors.step] at hs
    split at hs
    · next id req hi =>
      split at hs
      · cases hs
        exact h.move hi rfl (nofun) nofun
      · split at hs
        · next inflights serial hlock =>
          cases hs
          exact h.lock hi _ _ inflights serial hlock
        · cases hs
          exact h.move hi rfl (nofun) nofun
    · cases hs
  | cancel i =>
    simp only [Actors.step] at hs
    split at hs
    · next id serial hi =>
      cases hs
      exact h.move hi rfl (fun _ _ => rfl) nofun
    · cases hs
  | seeClosed i =>
    simp only [Actors.step] at hs
    split at hs
    · next id serial hi =>
      obtain ⟨-, rfl⟩ := of_guard hs
      exact h.move hi rfl (fun _ _ => rfl) nofun
    · cases hs
  | seeStarted i =>
    simp only [Actors.step] at hs
    split at hs
    · next id serial hi =>
      split at hs
      · next hany =>
        obtain ⟨v, hv, hboth⟩ := any_eq_true.1 hany
        obtain ⟨hvs, hstarted⟩ : v.serial = serial ∧ v.started = true := by simpa using hboth
        split at hs
        · cases hs
          exact h.move hi rfl (fun _ _ => rfl) nofun
        · cases hs
          exact h.grant hi hv hvs hstarted
      · cases hs
    · cases hs
  | unlock i =>
    simp only [Actors.step] at hs
    split at hs
    · next id serial hi =>
      cases hs
      exact h.move hi rfl (fun _ _ => rfl) fun _ hheld => .inl hheld
    · cases hs
  | release i =>
    simp only [Actors.step] at hs
    split at hs
    · next id serial error hi =>
      cases hs
      exact h.release hi rfl id (some error)
    · next id serial hi =>
      cases hs
      exact h.release hi rfl id none
    · cases hs
  | close =>
    cases hs
    exact ⟨h.queue, h.calls, h.front, h.grants, h.order⟩

/-! ## Every run -/

def Holding (t : Call) : Bool := t.pc.held.isSome

/-- Calls that are granted and not released are in one flight and at most `limit`. Flights are granted in the order of
their arrival, and none before one with a call that waits. If a flight has a call, the front is started. -/
structure TurnBased (limit : Nat) (s : State) : Prop where
  exclusive : ∀ t ∈ s.calls, ∀ u ∈ s.calls, ∀ serial serial', t.pc.held = some serial → u.pc.held = some serial' →
    serial = serial' ∧ t.id = u.id
  bounded : countAt Holding s.calls ≤ limit
  order : s.grants.Pairwise (· ≤ ·)
  waiting : ∀ t ∈ s.calls, ∀ serial, t.pc = .waiting serial → ∀ granted ∈ s.grants, granted ≤ serial
  front : (∃ v ∈ s.inflights, 0 < v.depth) → ∃ v, s.inflights.head? = some v ∧ v.started = true

/-- A call that holds the actor is in the front flight. -/
theorem Inv.held_front (ht : t ∈ s.calls) (hheld : t.pc.held = some serial) :
    ∃ v, s.inflights.head? = some v ∧ v.serial = serial ∧ v.id = t.id := by
  obtain ⟨v, hv, hvs, hstarted⟩ := h.calls.started t ht serial hheld
  obtain ⟨w, hw, hws, hwid⟩ := h.calls.queued t ht serial (Pc.flight_of_held hheld)
  obtain ⟨hfront, -⟩ := h.queue.eq_front hv hstarted
  have heq : w = v := by
    have hnodup : (s.inflights.map (·.serial)).Nodup :=
      pairwise_map.2 (h.queue.sorted.imp fun hlt => Nat.ne_of_lt hlt)
    exact inj_on_of_nodup_map hnodup hw hv (hws.trans hvs.symm)
  exact ⟨v, hfront, hvs, heq ▸ hwid⟩

theorem turnBased_of_inv : TurnBased cfg.limit s where
  exclusive t ht u hu serial serial' hserial hserial' := by
    obtain ⟨v, hv, hvs, hvid⟩ := h.held_front ht hserial
    obtain ⟨w, hw, hws, hwid⟩ := h.held_front hu hserial'
    obtain rfl : v = w := Option.some.inj (hv.symm.trans hw)
    exact ⟨hvs.symm.trans hws, hvid.symm.trans hwid⟩
  bounded := by
    cases hq : s.inflights with
    | nil =>
      have hzero : countAt Holding s.calls = 0 := by
        refine countAt_eq_zero.2 fun t ht => ?_
        rw [← Bool.not_eq_true]
        intro hholding
        obtain ⟨serial, hserial⟩ := Option.isSome_iff_exists.1 hholding
        obtain ⟨v, hv, -⟩ := h.held_front ht hserial
        simp [hq] at hv
      omega
    | cons front rest =>
      -- who holds the actor is in the front flight, which has as many calls as its depth
      have hmem : front ∈ s.inflights := by simp [hq]
      have hle : countAt Holding s.calls ≤ countAt (inFlight front.serial) s.calls := by
        refine countP_mono_left fun t ht hholding => ?_
        obtain ⟨serial, hserial⟩ := Option.isSome_iff_exists.1 hholding
        obtain ⟨v, hv, hvs, -⟩ := h.held_front ht hserial
        obtain rfl : front = v := by simpa [hq] using hv
        exact inFlight_iff.2 (hvs ▸ Pc.flight_of_held hserial)
      calc countAt Holding s.calls ≤ front.depth := by rw [h.calls.depth front hmem]; exact hle
        _ ≤ cfg.limit := h.queue.limit front hmem
  order := h.order
  waiting t ht serial hpc granted hgranted := by
    obtain ⟨v, hv, hvs, -⟩ := h.calls.queued t ht serial (by rw [hpc]; rfl)
    exact hvs ▸ (h.grants granted hgranted).2 v hv
  front := by
    rintro ⟨v, hv, -⟩
    cases hq : s.inflights with
    | nil => simp [hq] at hv
    | cons front rest => exact ⟨front, rfl, (h.front front (by simp [hq])).2⟩

end

/-- In every run of the lock calls take turns. The first call of a flight is not checked against the maximum depth, so
the bound is at least one. -/
theorem turnBased (h : Reachable (· = State.start) (Steps (fun _ _ => True) (step cfg)) s) : TurnBased cfg.limit s := by
  refine turnBased_of_inv (h.invariant (Inv cfg) ?_ ?_)
  · rintro _ rfl
    exact inv_start
  · rintro s s' hinv ⟨l, -, hs⟩
    exact hinv.step hs

theorem turnBased_reentrant :
    ∃ s, runFrom (step (.new (some ⟨true, some 2⟩))) State.start
        [.call (some ["a"]), .call (some ["b"]), .call (some ["a"]), .lock 0 "", .lock 1 "", .seeStarted 0, .lock 2 "",
          .seeStarted 2] = some s ∧ countAt Holding s.calls = 2 ∧ TurnBased 2 s := by
  simp only [← and_assoc]
  refine Exists.imp (fun s hs => ⟨hs, ?_⟩) ⟨_, rfl, rfl⟩
  have hturns : TurnBased (Config.new (some ⟨true, some 2⟩)).limit s :=
    turnBased (reachable_of_runFrom (.start rfl) (fun _ _ _ => trivial) hs.1)
  exact hturns

/-- With a maximum depth of zero the first call is still granted. -/
theorem granted_above_zero :
    ∃ s, runFrom (step (.new (some ⟨true, some 0⟩))) State.start [.call (some ["a"]), .lock 0 "", .seeStarted 0] = some s ∧
      countAt Holding s.calls = 1 ∧ ¬ TurnBased (Config.new (some ⟨true, some 0⟩)).maxStackDepth.toNat s := by
  refine ⟨_, rfl, rfl, fun h => ?_⟩
  exact absurd h.bounded (by decide)

end Dapr.Actors
