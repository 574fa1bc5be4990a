import Dapr.Lib.Runs
import Dapr.Authority.Leadership
/-!
# One authority at a time

As long as no placement service comes or goes while a run reads the facts, the run decides what the
facts of one moment say: a leader is not announced together with a placement service, and the flag
that a leader was broadcast is not set for facts from before a placement service was there.
-/

namespace Dapr.Authority

open List

/-! ## The leader -/

theorem placementLeader_mem {hosts : List Host} (h : placementLeader hosts ≠ "") :
    ∃ host ∈ hosts, host.address = placementLeader hosts ∧ host.schedulerPlacementEnabled = true := by
  refine (foldlRecOn (motive := fun leader => leader = "" ∨
    ∃ host ∈ hosts, host.address = leader ∧ host.schedulerPlacementEnabled = true) hosts prefer (.inl rfl)
    fun leader hleader host hmem => ?_).resolve_left h
  unfold prefer
  split
  · exact hleader
  · next henabled =>
    split
    · exact .inr ⟨host, hmem, rfl, by simpa using henabled⟩
    · exact hleader

namespace Reads

variable {x : Reads} {hosts : List Host}

variable {h : Handoff} {c : Call} {e : Event}

theorem read_capable : (x.read h c).capable = if c = .anyCapable then h.capable else x.capable := by
  cases c <;> rfl

theorem read_advertised : (x.read h c).advertised = if c = .advertised then h.advertised else x.advertised := by
  cases c <;> rfl

theorem read_placementPresent :
    (x.read h c).placementPresent = if c = .placementPresent then h.placementPresent else x.placementPresent := by
  cases c <;> rfl

theorem read_placementConfirmed : (x.read h c).placementConfirmed =
    if c = .placementConfirmed then h.placementConfirmed else x.placementConfirmed := by
  cases c <;> rfl

theorem of_leaderAddr (h : x.leaderAddr hosts ≠ "") :
    x.awaitingLeadership = false ∧ x.leaderAddr hosts = placementLeader hosts := by
  unfold leaderAddr at h ⊢
  cases hwait : x.awaitingLeadership with
  | true =>
    rw [hwait] at h
    exact absurd rfl h
  | false => exact ⟨rfl, rfl⟩

theorem present_of_not_awaiting (h : x.awaitingLeadership = false) : x.placementPresent = false := by
  unfold awaitingLeadership at h
  simp only [Bool.or_eq_false_iff] at h
  exact h.1.1

theorem leaderAddr_of_advertises (h : x.advertises hosts = true) : x.leaderAddr hosts ≠ "" := by
  simp only [advertises, Bool.and_eq_true, bne_iff_ne] at h
  exact h.1.1

theorem exists_leader (h : x.leaderAddr hosts ≠ "") : ∃ host ∈ x.stamp hosts, host.leader = true := by
  obtain ⟨-, haddr⟩ := of_leaderAddr h
  obtain ⟨host, hmem, hhost, -⟩ := placementLeader_mem (haddr ▸ h)
  refine ⟨_, mem_map_of_mem hmem, ?_⟩
  simp [hhost, haddr, haddr ▸ h]

/-- The decision is the one that the facts of a moment say. -/
structure Matches (x : Reads) (h : Handoff) : Prop where
  confirmed : x.placementConfirmed = h.placementConfirmed
  awaiting : x.awaitingLeadership = (h.reads x.streams).awaitingLeadership


theorem Matches.leaderAddr (hm : x.Matches h) : x.leaderAddr hosts = (h.reads x.streams).leaderAddr hosts := by
  unfold Reads.leaderAddr
  rw [hm.awaiting]

theorem Matches.stamp (hm : x.Matches h) : x.stamp hosts = (h.reads x.streams).stamp hosts := by
  unfold Reads.stamp
  rw [hm.leaderAddr, hm.confirmed]
  rfl

theorem Matches.leads (hm : x.Matches h) (ownAddress : String) :
    x.leads hosts ownAddress = (h.reads x.streams).leads hosts ownAddress := by
  unfold Reads.leads
  rw [hm.leaderAddr]

/-- No placement service is there when a leader is decided on. -/
theorem Matches.exclusive (hm : x.Matches h) (hwait : x.awaitingLeadership = false) : x.placementConfirmed = false := by
  rw [hm.awaiting] at hwait
  rw [hm.confirmed]
  by_contra hc
  have hpresent := Handoff.placementPresent_of_confirmed (Bool.eq_true_of_not_eq_false hc)
  exact Bool.false_ne_true ((present_of_not_awaiting hwait).symm.trans hpresent)

theorem Matches.leader_enabled (hm : x.Matches h) {host : Host} (hhost : host ∈ x.stamp hosts)
    (hleader : host.leader = true) :
    ∃ host' ∈ x.stamp hosts, host'.address = host.address ∧ host'.schedulerPlacementEnabled = true := by
  obtain ⟨host, -, rfl⟩ := mem_map.1 hhost
  simp only [Bool.and_eq_true, beq_iff_eq, bne_iff_ne] at hleader
  obtain ⟨hwait, haddr⟩ := of_leaderAddr hleader.2
  obtain ⟨host', hmem, haddr', henabled⟩ := placementLeader_mem (haddr ▸ hleader.2)
  refine ⟨_, mem_map_of_mem hmem, ?_, ?_⟩
  · exact haddr'.trans (hleader.1.trans haddr).symm
  · simp [hm.exclusive hwait, henabled]

end Reads

/-! ## Runs of the handler -/

def Call.index : Call → Nat
  | .anyIncapable => 0
  | .anyCapable => 1
  | .advertised => 2
  | .placementPresent => 3
  | .placementConfirmed => 4
  | .ready => 5
  | .hasPlacementStreams => 6
  | .setAdvertised => 7
  | .setLeader => 8
  | .broadcast => 9

theorem Call.index_injective : Function.Injective Call.index := by
  intro c c' h
  cases c <;> cases c' <;> first | rfl | cases h

theorem Call.index_next (c : Call) : c.next.index ≤ c.index + 1 := by
  cases c <;> decide

namespace Run

/-- The run has made the call. -/
def Made (r : Run) (c : Call) : Prop := c.index < r.call.index

/-- The run has not set the flag yet, if it does. -/
def Deciding (r : Run) : Prop := r.call.index ≤ Call.setAdvertised.index

instance (r : Run) : Decidable r.Deciding := inferInstanceAs (Decidable (_ ≤ _))

/-- What was read still is as the facts are, up to presence: a placement service that was presumed may be gone. -/
structure Fits (h : Handoff) (r : Run) : Prop where
  now : h ∈ r.moments
  steady : ∀ f ∈ r.moments, f.placementConfirmed = h.placementConfirmed
  capable : r.Made .anyCapable → r.reads.capable = h.capable
  advertised : r.Made .advertised → h.placementConfirmed = false → r.reads.advertised = h.advertised
  present : r.Made .placementPresent → r.reads.placementPresent = true → ∃ f ∈ r.moments, f.placementPresent = true
  absent : r.Made .placementPresent → r.reads.placementPresent = false → h.placementPresent = false
  confirmed : r.Made .placementConfirmed → r.reads.placementConfirmed = h.placementConfirmed
  reappeared : r.reappeared = true → h.placementConfirmed = true

/-- The facts of some moment of the run decide as the run does. -/
def Settled (r : Run) : Prop :=
  r.Made .ready → ∀ streams, ∃ f ∈ r.moments, Reads.Matches { r.reads with streams := streams } f

variable {h h' : Handoff} {r : Run}

theorem fits_start (h : Handoff) (hosts : List Host) : Fits h ⟨hosts, .anyIncapable, {}, [h], false⟩ where
  now := mem_cons_self
  steady := fun f hf => by rw [mem_singleton.1 hf]
  capable := fun hmade => absurd hmade (Nat.not_lt_zero _)
  advertised := fun hmade => absurd hmade (Nat.not_lt_zero _)
  present := fun hmade => absurd hmade (Nat.not_lt_zero _)
  absent := fun hmade => absurd hmade (Nat.not_lt_zero _)
  confirmed := fun hmade => absurd hmade (Nat.not_lt_zero _)
  reappeared := fun hre => absurd hre Bool.false_ne_true

/-- The facts change, but no placement service comes or goes. -/
theorem Fits.settles (hr : r.Fits h) (hs : h.Settles h') {reappeared : Bool}
    (hre : reappeared = true → h'.placementConfirmed = true) :
    Fits h' { r with moments := r.moments ++ [h'], reappeared := r.reappeared || reappeared } where
  now := mem_append_right _ mem_cons_self
  steady := Lib.Runs.forall_mem_concat (fun f hf => (hr.steady f hf).trans hs.confirmed.symm) rfl
  capable := fun hmade => (hr.capable hmade).trans hs.capable.symm
  advertised := by
    intro hmade hnone
    rw [hs.confirmed] at hnone
    exact (hr.advertised hmade hnone).trans (hs.advertised hnone).symm
  present := by
    intro hmade hpresent
    obtain ⟨f, hf, hfp⟩ := hr.present hmade hpresent
    exact ⟨f, mem_append_left _ hf, hfp⟩
  absent := fun hmade habsent => hs.present (hr.absent hmade habsent)
  confirmed := fun hmade => (hr.confirmed hmade).trans hs.confirmed.symm
  reappeared := by
    intro hor
    rcases Bool.or_eq_true_iff.1 hor with hold | hnew
    · exact hs.confirmed.trans (hr.reappeared hold)
    · exact hre hnew

/-- A run that decided on a leader saw no placement service come. -/
theorem Fits.not_reappeared (hr : r.Fits h) (hmade : r.Made .placementPresent)
    (hadv : r.reads.advertises r.hosts = true) : r.reappeared = false := by
  obtain ⟨hwait, -⟩ := Reads.of_leaderAddr (Reads.leaderAddr_of_advertises hadv)
  have habsent := hr.absent hmade (Reads.present_of_not_awaiting hwait)
  by_contra hre
  rw [Handoff.placementPresent_of_confirmed (hr.reappeared (Bool.eq_true_of_not_eq_false hre))] at habsent
  cases habsent

theorem Settled.moment (hr : r.Settled) (hmade : r.Made .ready) : ∃ f ∈ r.moments, r.reads.Matches f :=
  hr hmade r.reads.streams

theorem Settled.later (hr : r.Settled) (reappeared : Bool) :
    Settled { r with moments := r.moments ++ [h'], reappeared := reappeared } := by
  intro hmade streams
  obtain ⟨f, hf, hm⟩ := hr hmade streams
  exact ⟨f, mem_append_left _ hf, hm⟩

/-- The call that was next is the only one made meanwhile. -/
theorem made_of_next {c : Call} (hne : r.call ≠ c) (hmade : c.index < r.call.next.index) : r.Made c := by
  have hle : c.index ≤ r.call.index := Nat.le_of_lt_succ (Nat.lt_of_lt_of_le hmade r.call.index_next)
  exact Nat.lt_of_le_of_ne hle fun heq => hne (Call.index_injective heq).symm

theorem Fits.read (hr : r.Fits h) : Fits h { r with call := r.call.next, reads := r.reads.read h r.call } where
  now := hr.now
  steady := hr.steady
  capable := by
    intro hmade
    rw [Reads.read_capable]
    split
    · rfl
    · next hne => exact hr.capable (made_of_next hne hmade)
  advertised := by
    intro hmade hnone
    rw [Reads.read_advertised]
    split
    · rfl
    · next hne => exact hr.advertised (made_of_next hne hmade) hnone
  present := by
    intro hmade hpresent
    rw [Reads.read_placementPresent] at hpresent
    split at hpresent
    · exact ⟨h, hr.now, hpresent⟩
    · next hne => exact hr.present (made_of_next hne hmade) hpresent
  absent := by
    intro hmade habsent
    rw [Reads.read_placementPresent] at habsent
    split at habsent
    · exact habsent
    · next hne => exact hr.absent (made_of_next hne hmade) habsent
  confirmed := by
    intro hmade
    rw [Reads.read_placementConfirmed]
    split
    · rfl
    · next hne => exact hr.confirmed (made_of_next hne hmade)
  reappeared := hr.reappeared

theorem Fits.askStreams (hr : r.Fits h) (hcall : r.call = .hasPlacementStreams) (streams : Bool) :
    Fits h { r with call := r.call.next, reads := { r.reads with streams := streams } } :=
  have hmade : ∀ c : Call, c.index < 6 → r.Made c := fun c hc => by rw [Made, hcall]; exact hc
  { hr with
    capable := fun _ => hr.capable (hmade .anyCapable (by decide))
    advertised := fun _ => hr.advertised (hmade .advertised (by decide))
    present := fun _ => hr.present (hmade .placementPresent (by decide))
    absent := fun _ => hr.absent (hmade .placementPresent (by decide))
    confirmed := fun _ => hr.confirmed (hmade .placementConfirmed (by decide)) }

/-- With the last fact the decision is that of one moment: the one when a placement service was presumed, or now. -/
theorem Fits.settled (hr : r.Fits h) (hcall : r.call = .ready) (call : Call) :
    Settled { r with call := call, reads := { r.reads with ready := h.ready } } := by
  intro _ streams
  have hmade : ∀ c : Call, c.index < 5 → r.Made c := fun c hc => by rw [Made, hcall]; exact hc
  have hconfirmed := hr.confirmed (hmade .placementConfirmed (by decide))
  cases hp : r.reads.placementPresent with
  | true =>
    obtain ⟨f, hf, hfp⟩ := hr.present (hmade .placementPresent (by decide)) hp
    refine ⟨f, hf, hconfirmed.trans (hr.steady f hf).symm, ?_⟩
    simp [Reads.awaitingLeadership, Handoff.reads, hp, hfp]
  | false =>
    have habsent := hr.absent (hmade .placementPresent (by decide)) hp
    have hnone : h.placementConfirmed = false := by
      by_contra hc
      rw [Handoff.placementPresent_of_confirmed (Bool.eq_true_of_not_eq_false hc)] at habsent
      cases habsent
    refine ⟨h, hr.now, hconfirmed, ?_⟩
    simp [Reads.awaitingLeadership, Reads.gateCapable, Handoff.reads, hp, habsent,
      hr.capable (hmade .anyCapable (by decide)), hr.advertised (hmade .advertised (by decide)) hnone]

end Run

/-- What is given out is what the facts of a moment of its run say. -/
def Output.Determined (ownAddress : String) : Output → Prop
  | .setLeader r leader => ∃ f ∈ r.moments, leader = (f.reads r.reads.streams).leads r.hosts ownAddress
  | .broadcast r hosts => ∃ f ∈ r.moments, hosts = (f.reads r.reads.streams).stamp r.hosts

/-- What is given out follows from what its run read, and so from the facts of a moment of that run. -/
def Output.Follows (ownAddress : String) : Output → Prop
  | .setLeader r leader => leader = r.reads.leads r.hosts ownAddress ∧ ∃ f ∈ r.moments, r.reads.Matches f
  | .broadcast r hosts => hosts = r.reads.stamp r.hosts ∧ ∃ f ∈ r.moments, r.reads.Matches f

namespace Leadership

open Lib.Runs

/-- A run is reading the facts, or sets the flag next. -/
def Deciding (s : Leadership) : Prop := ∃ r ∈ s.run, r.Deciding

instance (s : Leadership) : Decidable s.Deciding := inferInstanceAs (Decidable (∃ r ∈ s.run, _))

/-- No placement service comes or goes while a run is deciding, and nothing else that it reads changes. -/
def Calm (s : Leadership) : Event → Prop
  | .setKubernetesPresence present =>
    s.Deciding → (s.handoff.setKubernetesPresence present).placementConfirmed = s.handoff.placementConfirmed
  | .endDetection (some sighted) =>
    s.Deciding → (s.handoff.sight sighted).placementConfirmed = s.handoff.placementConfirmed
  | .setLocalCapabilities _ _ | .requestDetection _ => ¬ s.Deciding
  | _ => True

/-- What a run decides on is as new as the answers that were handed to it. -/
structure Inv (s : Leadership) : Prop where
  answered : s.handoff.doneGen ≤ s.handoff.reqGen
  answering : ∀ g ∈ s.detection, s.handoff.doneGen ≤ g ∧ g ≤ s.handoff.reqGen
  fits : ∀ r ∈ s.run, r.Deciding → r.Fits s.handoff
  settled : ∀ r ∈ s.run, r.Settled
  outputs : ∀ o ∈ s.outputs, o.Follows s.ownAddress

variable {s s' : Leadership} {r : Run}

theorem inv_new (ownAddress : String) (placement : Bool) : (new ownAddress placement).Inv where
  answered := le_rfl
  answering := fun _ hg => by cases hg
  fits := fun _ hr => by cases hr
  settled := fun _ hr => by cases hr
  outputs := fun _ ho => absurd ho not_mem_nil

section
variable (h : s.Inv)
include h

/-- The facts change, by another thread. -/
theorem Inv.setHandoff (facts : Handoff) (reappeared : Bool) (detection : Option Nat)
    (hanswered : facts.doneGen ≤ facts.reqGen) (hanswering : ∀ g ∈ detection, facts.doneGen ≤ g ∧ g ≤ facts.reqGen)
    (hcalm : s.Deciding → s.handoff.Settles facts)
    (hre : reappeared = true → facts.placementConfirmed = true) :
    Inv { s.setHandoff facts reappeared with detection := detection } where
  answered := hanswered
  answering := hanswering
  fits := by
    intro r' hr' hdeciding
    obtain ⟨r, hr, rfl⟩ := Option.map_eq_some_iff.1 hr'
    exact (h.fits r hr hdeciding).settles (hcalm ⟨r, hr, hdeciding⟩) hre
  settled := by
    intro r' hr'
    obtain ⟨r, hr, rfl⟩ := Option.map_eq_some_iff.1 hr'
    exact (h.settled r hr).later _
  outputs := h.outputs

theorem Inv.setKubernetesPresence {present : Bool} (hcalm : s.Calm (.setKubernetesPresence present)) :
    (s.setHandoff (s.handoff.setKubernetesPresence present) (present && !s.handoff.podPresent)).Inv := by
  refine h.setHandoff _ _ s.detection h.answered h.answering (fun hd => ?_) fun hre => ?_
  · exact Handoff.settles_setKubernetesPresence (hcalm hd)
  · simp only [Bool.and_eq_true] at hre
    simp [Handoff.placementConfirmed, hre.1]

theorem Inv.endDetection {startGen : Nat} {sighted : Bool} (hstart : s.detection = some startGen)
    (hcalm : s.Calm (.endDetection (some sighted))) :
    Inv { s.setHandoff (s.handoff.refreshDetection startGen sighted) (sighted && !s.handoff.detected) with
      detection := none } := by
  obtain ⟨hdone, hreq⟩ := h.answering startGen hstart
  obtain ⟨hconfirmed, -, hreq', hdone'⟩ := Handoff.refreshDetection_fields startGen sighted
  refine h.setHandoff _ _ none (by rw [hreq', hdone']; exact hreq) nofun (fun hd => ?_) fun hre => ?_
  · exact Handoff.settles_refreshDetection hdone hreq (hconfirmed.trans (hcalm hd))
  · simp only [Bool.and_eq_true] at hre
    rw [hconfirmed]
    simp [Handoff.sight, Handoff.placementConfirmed, hre.1]

theorem Inv.handle (anyhosts : Option (List (Option Host))) : (s.handle anyhosts).Inv := by
  unfold Leadership.handle
  split
  · exact h
  · next hosts _ =>
    refine { h with fits := fun r hr _ => ?_, settled := fun r hr hmade => ?_ }
    · cases hr
      exact Run.fits_start s.handoff hosts
    · cases hr
      exact absurd hmade (Nat.not_lt_zero _)

/-- The run goes on, without a change of the facts. -/
theorem Inv.setRun {r' : Run} (hfits : r'.Deciding → r'.Fits s.handoff) (hsettled : r'.Settled) :
    Inv { s with run := some r' } := by
  refine { h with fits := fun r hr => ?_, settled := fun r hr => ?_ }
  · cases hr
    exact hfits
  · cases hr
    exact hsettled

theorem Inv.output {o : Output} (ho : o.Follows s.ownAddress) : Inv { s with outputs := s.outputs ++ [o] } :=
  { h with outputs := forall_mem_concat h.outputs ho }

/-- The run goes on with its decision. -/
theorem Inv.decided (hr : s.run = some r) (hcall : Call.setAdvertised.index ≤ r.call.index) {c : Call}
    (hc : Call.setAdvertised.index < c.index) : Inv { s with run := some { r with call := c } } :=
  h.setRun (fun hd => absurd hc (Nat.not_lt_of_le hd)) fun _ => h.settled r hr (Nat.lt_of_lt_of_le (by decide) hcall)

theorem Inv.setAdvertised (hr : s.run = some r) (hcall : r.call = .setAdvertised) :
    Inv (Leadership.setHandoff { s with run := some { r with call := r.call.next } }
      s.handoff.setAdvertised false) := by
  rw [hcall]
  refine (h.decided hr (by rw [hcall]) (by decide)).setHandoff _ _ s.detection h.answered h.answering
    (fun hd => ?_) nofun
  obtain ⟨r', hr', hd⟩ := hd
  cases hr'
  exact absurd hd (Nat.not_succ_le_self _)

theorem Inv.getter (hr : s.run = some r) (hgetter : r.call.index ≤ Call.ready.index) :
    Inv { s with run := some { r with call := r.call.next, reads := r.reads.read s.handoff r.call } } := by
  have hfits := h.fits r hr (hgetter.trans (by decide))
  refine h.setRun (fun _ => hfits.read) ?_
  by_cases hready : r.call = .ready
  · rw [hready]
    exact hfits.settled hready _
  · -- the facts are not all read yet
    exact fun hmade => absurd (Run.made_of_next hready hmade) (Nat.not_lt_of_le hgetter)

theorem Inv.call (hr : s.run = some r) (streams : Bool) : (s.call r streams).Inv := by
  unfold Leadership.call
  split
  · next hcall =>
    have hdeciding : r.Deciding := by rw [Run.Deciding, hcall]; decide
    have hmade : r.Made .ready := by rw [Run.Made, hcall]; decide
    have hfits := (h.fits r hr hdeciding).askStreams hcall (s.placement && streams)
    exact { h.setRun (fun _ => hfits) fun _ => h.settled r hr hmade with }
  · next hcall =>
    split
    · exact { h.setAdvertised hr hcall with }
    · rw [hcall]
      exact { h.decided hr (by rw [hcall]) (by decide) with }
  · next hcall =>
    rw [hcall]
    have hnext := h.decided hr (by rw [hcall]; decide) (c := .broadcast) (by decide)
    split
    · exact hnext.output ⟨rfl, (h.settled r hr).moment (by rw [Run.Made, hcall]; decide)⟩
    · exact hnext
  · next hcall =>
    have hdone : Inv { s with run := none } :=
      { h with
        fits := fun _ hr' => by cases hr'
        settled := fun _ hr' => by cases hr' }
    dsimp only
    split
    · exact hdone
    · exact { hdone.output (o := .broadcast r _) ⟨rfl, (h.settled r hr).moment (by rw [Run.Made, hcall]; decide)⟩ with }
  · next hstreams hset hlead hbroadcast =>
    refine h.getter hr ?_
    cases hcall : r.call <;> simp_all [Call.index]

theorem Inv.step {e : Event} (hcalm : s.Calm e) (hstep : s.step e = some s') : s'.Inv := by
  cases e with
  | setKubernetesPresence present =>
    cases hstep
    exact h.setKubernetesPresence hcalm
  | setLocalCapabilities incapable capable =>
    cases hstep
    exact h.setHandoff _ _ s.detection h.answered h.answering (fun hd => absurd hd hcalm) nofun
  | requestDetection added =>
    cases hstep
    refine h.setHandoff _ _ s.detection (Nat.le_succ_of_le h.answered) (fun g hg => ?_)
      (fun hd => absurd hd hcalm) nofun
    exact ⟨(h.answering g hg).1, Nat.le_succ_of_le (h.answering g hg).2⟩
  | startDetection =>
    simp only [Leadership.step] at hstep
    split at hstep
    · cases hstep
      refine { h with answering := fun g hg => ?_ }
      cases hg
      exact ⟨h.answered, le_rfl⟩
    · cases hstep
  | endDetection sighted =>
    simp only [Leadership.step] at hstep
    split at hstep
    · cases hstep
    · cases hstep
      exact { h with answering := nofun }
    · next startGen sighted hstart =>
      cases hstep
      exact h.endDetection hstart hcalm
  | completeReady =>
    cases hstep
    exact h.setHandoff _ _ s.detection h.answered h.answering (fun _ => s.handoff.settles_completeReady) nofun
  | handle anyhosts =>
    simp only [Leadership.step] at hstep
    split at hstep
    · cases hstep
      exact h.handle anyhosts
    · cases hstep
  | call streams =>
    obtain ⟨r, hr, rfl⟩ := Option.map_eq_some_iff.1 hstep
    exact h.call hr streams

end

/-! ## Announcements -/

/-- One authority is announced at a time, and a leader is known to have been broadcast for facts that still hold. -/
structure Consistent (s : Leadership) : Prop where
  determined : ∀ o ∈ s.outputs, o.Determined s.ownAddress
  exclusive : ∀ r hosts, .broadcast r hosts ∈ s.outputs → ∀ host ∈ hosts, host.leader = true →
    ∃ host' ∈ hosts, host'.address = host.address ∧ host'.schedulerPlacementEnabled = true
  advertised : ∀ e s', s.step e = some s' → s.handoff.advertised = false → s'.handoff.advertised = true →
    ∃ r, s.run = some r ∧ (∃ streams, e = .call streams) ∧ r.call = .setAdvertised ∧ r.reappeared = false ∧
      r.reads.advertises r.hosts = true
  broadcast : ∀ r streams s', s.run = some r → r.call = .broadcast → r.reads.advertises r.hosts = true →
    s.step (.call streams) = some s' → ∃ hosts ∈ s'.broadcastHosts, ∃ host ∈ hosts, host.leader = true

/-- The flag is set by a run that decided on a leader. -/
theorem advertised_step {e : Event} (hstep : s.step e = some s') (hold : s.handoff.advertised = false)
    (hnew : s'.handoff.advertised = true) :
    ∃ r, s.run = some r ∧ (∃ streams, e = .call streams) ∧ r.call = .setAdvertised ∧
      r.reads.advertises r.hosts = true := by
  have hunset : s.handoff.advertised ≠ true := by rw [hold]; exact Bool.false_ne_true
  cases e with
  | setKubernetesPresence present =>
    cases hstep
    exact absurd (Handoff.advertised_of_setKubernetesPresence hnew) hunset
  | startDetection =>
    simp only [step] at hstep
    split at hstep
    · cases hstep
      exact absurd hnew hunset
    · cases hstep
  | endDetection sighted =>
    simp only [step] at hstep
    split at hstep
    · cases hstep
    · cases hstep
      exact absurd hnew hunset
    · cases hstep
      exact absurd (Handoff.advertised_of_refreshDetection hnew) hunset
  | setLocalCapabilities | requestDetection | completeReady =>
    cases hstep
    exact absurd hnew hunset
  | handle anyhosts =>
    simp only [step] at hstep
    split at hstep
    · cases hstep
      unfold handle at hnew
      split at hnew <;> exact absurd hnew hunset
    · cases hstep
  | call streams =>
    obtain ⟨r, hr, rfl⟩ := Option.map_eq_some_iff.1 hstep
    refine ⟨r, hr, ⟨streams, rfl⟩, ?_⟩
    unfold call at hnew
    split at hnew
    · exact absurd hnew hunset
    · next hcall =>
      split at hnew
      · next hadv => exact ⟨hcall, hadv⟩
      · exact absurd hnew hunset
    · exact absurd hnew hunset
    · dsimp only at hnew
      split at hnew <;> exact absurd hnew hunset
    · exact absurd hnew hunset

theorem Inv.consistent (h : s.Inv) : s.Consistent where
  determined := by
    intro o ho
    cases o with
    | setLeader r leader =>
      obtain ⟨rfl, f, hf, hm⟩ := h.outputs _ ho
      exact ⟨f, hf, hm.leads _⟩
    | broadcast r hosts =>
      obtain ⟨rfl, f, hf, hm⟩ := h.outputs _ ho
      exact ⟨f, hf, hm.stamp⟩
  exclusive := by
    intro r hosts ho host hhost hleader
    obtain ⟨rfl, f, -, hm⟩ := h.outputs _ ho
    exact hm.leader_enabled hhost hleader
  advertised := by
    intro e s' hstep hold hnew
    obtain ⟨r, hr, he, hcall, hadv⟩ := advertised_step hstep hold hnew
    have hdeciding : r.Deciding := by rw [Run.Deciding, hcall]
    refine ⟨r, hr, he, hcall, ?_, hadv⟩
    exact (h.fits r hr hdeciding).not_reappeared (by rw [Run.Made, hcall]; decide) hadv
  broadcast := by
    intro r streams s' hr hcall hadv hstep
    obtain ⟨r', hr', rfl⟩ := Option.map_eq_some_iff.1 hstep
    cases hr.symm.trans hr'
    refine ⟨r.reads.stamp r.hosts, ?_, Reads.exists_leader (Reads.leaderAddr_of_advertises hadv)⟩
    unfold Leadership.call
    rw [hcall]
    dsimp only
    split
    · next hsame => exact hsame
    · rfl

/-- One authority is announced in every run where placement services come and go between the decisions. -/
theorem authority_announced_once (ownAddress : String) (placement : Bool)
    (h : Reachable (· = new ownAddress placement) (Steps Calm step) s) : s.Consistent := by
  have hinv : s.Inv := by
    refine Reachable.invariant Inv ?_ ?_ h
    · rintro s rfl
      exact inv_new ownAddress placement
    · rintro s s' hs ⟨e, hcalm, hstep⟩
      exact hs.step hcalm hstep
  exact hinv.consistent

instance (s : Leadership) : (e : Event) → Decidable (s.Calm e)
  | .setKubernetesPresence _ | .endDetection (some _) => inferInstanceAs (Decidable (_ → _))
  | .setLocalCapabilities _ _ | .requestDetection _ => inferInstanceAs (Decidable (¬ _))
  | .endDetection none | .startDetection | .completeReady | .handle _ | .call _ => .isTrue trivial

/-- A scheduler that has looked for a placement service, and a sidecar that takes placement from it. -/
def started : List Event :=
  [.setLocalCapabilities false true, .startDetection, .endDetection (some false), .completeReady]

/-- An update with two schedulers, and some calls of its run. -/
def update (calls : Nat) : List Event :=
  .handle (some [some ⟨"10.0.0.1:50006", false, true⟩, some ⟨"10.0.0.2:50006", false, true⟩]) ::
    replicate calls (.call false)

/-- The scheduler is the leader, until a placement service is there. -/
theorem authority_announced_once_handover :
    let events := started ++ update 10 ++ [.setKubernetesPresence true, .handle none] ++ replicate 10 (.call false)
    ∃ s, runFrom step (new "10.0.0.1:50006" true) events = some s ∧ s.outputs.length = 4 ∧
      s.broadcastHosts = some [⟨"10.0.0.1:50006", false, false⟩, ⟨"10.0.0.2:50006", false, false⟩] ∧ s.Consistent := by
  intro events
  have hrun : (runFrom (guarded Calm step) (new "10.0.0.1:50006" true) events).map
      (fun s => (s.outputs.length, s.broadcastHosts)) =
      some (4, some [⟨"10.0.0.1:50006", false, false⟩, ⟨"10.0.0.2:50006", false, false⟩]) := by
    decide +kernel
  obtain ⟨s, hs, heq⟩ := Option.map_eq_some_iff.1 hrun
  obtain ⟨hlength, hhosts⟩ := Prod.mk.inj heq
  exact ⟨s, runFrom_of_guarded hs, hlength, hhosts,
    authority_announced_once _ _ (reachable_of_guarded (.start rfl) hs)⟩

/-- A placement service comes between the reads of a run. -/
def comesDuringRun : List Event :=
  started ++ update 4 ++ [.setKubernetesPresence true] ++ replicate 6 (.call false)

/-- It goes between them. -/
def goesDuringRun : List Event :=
  started ++ [.setKubernetesPresence true] ++ update 4 ++ [.setKubernetesPresence false] ++
    replicate 6 (.call false)

/-- It comes after them. -/
def comesAfterReads : List Event := started ++ update 7 ++ [.setKubernetesPresence true, .call false]

/-- A leader is broadcast that does not serve placement; or no leader, while the schedulers are said to serve it; or
the flag is set for facts from before the placement service was there. -/
theorem placement_service_during_run :
    ((runFrom step (new "10.0.0.1:50006" true) comesDuringRun).map fun s => s.broadcastHosts) =
      some (some [⟨"10.0.0.1:50006", true, false⟩, ⟨"10.0.0.2:50006", false, false⟩]) ∧
    ((runFrom step (new "10.0.0.1:50006" true) goesDuringRun).map fun s => s.broadcastHosts) =
      some (some [⟨"10.0.0.1:50006", false, true⟩, ⟨"10.0.0.2:50006", false, true⟩]) ∧
    ((runFrom step (new "10.0.0.1:50006" true) comesAfterReads).map fun s =>
      (s.handoff.podPresent, s.handoff.advertised, s.run.map Run.reappeared)) = some (true, true, some true) ∧
    ∃ s, runFrom step (new "10.0.0.1:50006" true) comesDuringRun = some s ∧ ¬ s.Consistent := by
  refine ⟨by decide +kernel, by decide +kernel, by decide +kernel, ?_⟩
  have hrun : (runFrom step (new "10.0.0.1:50006" true) comesDuringRun).map (fun s => s.outputs.any fun o =>
      match o with
      | .setLeader _ _ => false
      | .broadcast _ hosts => hosts.any Host.leader && hosts.all fun host => !host.schedulerPlacementEnabled) =
      some true := by
    decide +kernel
  obtain ⟨s, hs, hany⟩ := Option.map_eq_some_iff.1 hrun
  refine ⟨s, hs, fun hconsistent => ?_⟩
  obtain ⟨o, ho, hbad⟩ := any_eq_true.1 hany
  cases o with
  | setLeader r leader => cases hbad
  | broadcast r hosts =>
    simp only [Bool.and_eq_true, any_eq_true, all_eq_true] at hbad
    obtain ⟨⟨host, hhost, hleader⟩, hnone⟩ := hbad
    obtain ⟨host', hhost', -, henabled⟩ := hconsistent.exclusive r hosts ho host hhost hleader
    have hdisabled := hnone host' hhost'
    rw [henabled] at hdisabled
    cases hdisabled

end Leadership

end Dapr.Authority
