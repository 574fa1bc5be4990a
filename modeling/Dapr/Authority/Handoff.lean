import Mathlib.Order.Basic
/-!
# The facts that decide who places actors

A scheduler places actors unless there is a placement service. What it knows of one is kept behind a
lock: the informer of the kubernetes controller sees its pods, and a detection looks for it again
and again. Each getter and setter takes the lock for itself. A detection takes it twice, to note the
requests that it answers and to store what it found.
-/

namespace Dapr.Authority

def absenceConfirmations : Nat := 3

/-- What is known of placement services. -/
structure Handoff where
  podPresent : Bool
  detected : Bool
  /-- How many detections in a row saw nothing since. -/
  misses : Nat
  /-- How many detections were requested, and up to which of the requests they are answered. -/
  reqGen : Nat
  doneGen : Nat
  /-- Whether a new address awaits its first probe. -/
  pendingAdd : Bool
  /-- Whether a placement leader was broadcast since a placement service was there. -/
  advertised : Bool
  incapable : Bool
  capable : Bool
  ready : Bool
  deriving DecidableEq, Repr

namespace Handoff

def new : Handoff where
  podPresent := false
  detected := false
  misses := 0
  reqGen := 0
  doneGen := 0
  pendingAdd := false
  advertised := false
  incapable := false
  capable := false
  ready := false

def placementConfirmed (h : Handoff) : Bool := h.podPresent || h.detected

/-- A placement service was seen, or no leader was broadcast yet and a new address is to be probed. -/
def placementPresent (h : Handoff) : Bool :=
  h.podPresent || h.detected || (h.reqGen != h.doneGen && !h.advertised && h.pendingAdd)

def setAdvertised (h : Handoff) : Handoff := { h with advertised := true }

def completeReady (h : Handoff) : Handoff := { h with ready := true }

def setLocalCapabilities (h : Handoff) (incapable capable : Bool) : Handoff :=
  { h with incapable := incapable, capable := capable }

def requestDetection (h : Handoff) (added : Bool) : Handoff :=
  { h with reqGen := h.reqGen + 1, pendingAdd := h.pendingAdd || added }

def setKubernetesPresence (h : Handoff) (present : Bool) : Handoff :=
  let changed := h.podPresent != present
  { h with podPresent := present, advertised := if changed && present then false else h.advertised }

/-- A sighting counts at once, an absence after some detections in a row. -/
def sight (h : Handoff) (sighted : Bool) : Handoff :=
  if sighted = true then
    { h with misses := 0, advertised := if h.detected = false then false else h.advertised, detected := true }
  else if h.detected = true then
    if absenceConfirmations ≤ h.misses + 1 then { h with detected := false, misses := 0 }
    else { h with misses := h.misses + 1 }
  else h

/-- The second half of a detection that noted `startGen` requests. -/
def refreshDetection (h : Handoff) (startGen : Nat) (sighted : Bool) : Handoff :=
  let h := { h.sight sighted with doneGen := startGen }
  if h.doneGen = h.reqGen then { h with pendingAdd := false } else h

variable {h h' : Handoff}

theorem placementPresent_of_confirmed (hc : h.placementConfirmed = true) : h.placementPresent = true := by
  unfold placementConfirmed at hc
  unfold placementPresent
  rw [hc, Bool.true_or]

/-- The flag is set by `setAdvertised` only. -/
theorem advertised_of_setKubernetesPresence {present : Bool}
    (ha : (h.setKubernetesPresence present).advertised = true) : h.advertised = true := by
  simp only [setKubernetesPresence] at ha
  split at ha
  · cases ha
  · exact ha

theorem advertised_of_sight (sighted : Bool) (ha : (h.sight sighted).advertised = true) : h.advertised = true := by
  unfold sight at ha
  split at ha
  · split at ha
    · cases ha
    · exact ha
  · split at ha
    · split at ha <;> exact ha
    · exact ha

theorem advertised_of_refreshDetection {startGen : Nat} {sighted : Bool}
    (ha : (h.refreshDetection startGen sighted).advertised = true) : h.advertised = true := by
  apply advertised_of_sight sighted
  unfold refreshDetection at ha
  dsimp only at ha
  split at ha <;> exact ha

/-! ## Changes that do not touch the authority -/

/-- No placement service came or went, nor an address to probe; and no leader was broadcast. -/
structure Settles (h h' : Handoff) : Prop where
  confirmed : h'.placementConfirmed = h.placementConfirmed
  capable : h'.capable = h.capable
  advertised : h.placementConfirmed = false → h'.advertised = h.advertised
  present : h.placementPresent = false → h'.placementPresent = false

theorem Settles.refl (h : Handoff) : Settles h h := ⟨rfl, rfl, fun _ => rfl, id⟩

theorem settles_completeReady (h : Handoff) : Settles h h.completeReady := { Settles.refl h with }

/-- While a placement service is there, the flag and the addresses to probe do not count. -/
theorem Settles.of_confirmed (hold : h.placementConfirmed = true) (hc : h'.placementConfirmed = h.placementConfirmed)
    (hcapable : h'.capable = h.capable) : Settles h h' where
  confirmed := hc
  capable := hcapable
  advertised := fun hnone => by
    rw [hold] at hnone
    cases hnone
  present := fun hnone => by
    rw [placementPresent_of_confirmed hold] at hnone
    cases hnone

theorem settles_setKubernetesPresence {present : Bool}
    (hc : (h.setKubernetesPresence present).placementConfirmed = h.placementConfirmed) :
    Settles h (h.setKubernetesPresence present) := by
  cases hold : h.placementConfirmed with
  | true => exact .of_confirmed hold hc rfl
  | false =>
    obtain ⟨hpod, -⟩ := Bool.or_eq_false_iff.1 hold
    obtain ⟨rfl, -⟩ := Bool.or_eq_false_iff.1 (hc.trans hold)
    have hsame : h.setKubernetesPresence false = { h with podPresent := false } := by
      simp [setKubernetesPresence]
    rw [hsame, ← hpod]
    exact .refl h

theorem sight_fields (sighted : Bool) :
    (h.sight sighted).capable = h.capable ∧ (h.sight sighted).reqGen = h.reqGen := by
  unfold sight
  split
  · exact ⟨rfl, rfl⟩
  · split
    · split <;> exact ⟨rfl, rfl⟩
    · exact ⟨rfl, rfl⟩

theorem refreshDetection_fields (startGen : Nat) (sighted : Bool) :
    (h.refreshDetection startGen sighted).placementConfirmed = (h.sight sighted).placementConfirmed ∧
      (h.refreshDetection startGen sighted).capable = h.capable ∧
      (h.refreshDetection startGen sighted).reqGen = h.reqGen ∧
      (h.refreshDetection startGen sighted).doneGen = startGen := by
  obtain ⟨hcapable, hreq⟩ := sight_fields sighted
  unfold refreshDetection
  dsimp only
  split <;> exact ⟨rfl, hcapable, hreq, rfl⟩

theorem settles_refreshDetection {startGen : Nat} {sighted : Bool} (hdone : h.doneGen ≤ startGen)
    (hreq : startGen ≤ h.reqGen)
    (hc : (h.refreshDetection startGen sighted).placementConfirmed = h.placementConfirmed) :
    Settles h (h.refreshDetection startGen sighted) := by
  obtain ⟨hconfirmed, hcapable, -, -⟩ := refreshDetection_fields startGen sighted
  cases hold : h.placementConfirmed with
  | true => exact .of_confirmed hold hc hcapable
  | false =>
    obtain ⟨hpod, hdetected⟩ := Bool.or_eq_false_iff.1 hold
    have hnone : sighted = false := by
      by_contra hsighted
      rw [hconfirmed, hold] at hc
      simp [sight, placementConfirmed, hsighted] at hc
    have hsame : h.sight sighted = h := by simp [sight, hnone, hdetected]
    unfold refreshDetection
    rw [hsame]
    dsimp only
    split
    · refine ⟨rfl, rfl, fun _ => rfl, fun _ => ?_⟩
      simp [placementPresent, hpod, hdetected]
    · next hlater =>
      refine ⟨rfl, rfl, fun _ => rfl, fun habsent => ?_⟩
      have hopen : h.reqGen ≠ h.doneGen := fun heq => hlater (Nat.le_antisymm hreq (heq ▸ hdone))
      simpa [placementPresent, hopen, Ne.symm hlater] using habsent

end Handoff

end Dapr.Authority
