import Dapr.Lib.Runs
import Dapr.Lib.Threads
/-!
# Claims of activity executions

When placement moves an activity actor, the host that still executes its activity guards the
execution: it writes a claim into the actor's state and keeps it alive by heartbeats, until the
execution has settled. A recovery that arrives on the new owner checks the claim before it
executes the activity again. All schedulings of an activity actor share the one row of the
claim.

Whether a record is stale is left to an oracle, which is never wrong about a guard that is
alive; the heartbeat times that it goes by are not kept.
-/

namespace Dapr.Workflow.Claim

open Lib.Threads Lib.Runs

variable {κ : Type}

/-- A claim in the store. -/
structure Record (κ : Type) where
  taskKey : κ
  completed : Bool
  deriving DecidableEq, Repr

inductive Place where
  | spawning
  /-- The execution has not settled. -/
  | beating
  /-- The claim is completed and kept for a while. -/
  | retaining
  | reading
  /-- Read the claim as its own; about to delete that version. -/
  | deleting (etag : Nat)
  | ended
  deriving DecidableEq, Repr

/-- The guard of an execution. -/
structure Guard (κ : Type) where
  host : Nat
  taskKey : κ
  place : Place
  deriving DecidableEq, Repr

inductive Outcome where
  | proceed
  | defer
  | completed
  deriving DecidableEq, Repr

/-- A recovery that checks the claim. -/
inductive Check (κ : Type) where
  | arriving (taskKey : κ)
  /-- Found the claim stale; about to delete that version. A completed claim is answered as completed
  however that goes. -/
  | reaping (taskKey : κ) (etag : Nat) (completed : Bool)
  | answered (taskKey : κ) (outcome : Outcome)
  deriving DecidableEq, Repr

inductive Thread (κ : Type) where
  | guard (g : Guard κ)
  | check (c : Check κ)
  deriving DecidableEq, Repr

/-- The row of an activity, and who works on it. -/
structure Claims (κ : Type) where
  row : Option (Record κ × Nat)
  /-- How often the row was written; the versions are numbered so. -/
  writes : Nat
  threads : List (Thread κ)
  deriving DecidableEq, Repr

def Claims.empty : Claims κ := ⟨none, 0, []⟩

inductive Move (κ : Type) where
  | spawn (host : Nat) (taskKey : κ)
  | check (taskKey : κ)
  /-- A guard takes its next step, other than by a heartbeat or a settled execution. -/
  | run (i : Nat)
  | heartbeat (i : Nat)
  | settle (i : Nat) (failed : Bool)
  /-- A check reads the claim; and whether it finds it stale. -/
  | read (i : Nat) (stale : Bool)
  /-- A check deletes the claim; and how the store answers if the row is gone. -/
  | reap (i : Nat) (goneOk : Bool)
  deriving DecidableEq, Repr

namespace Claims

def goto (s : Claims κ) (i : Nat) (t : Thread κ) : Claims κ := { s with threads := s.threads.set i t }

def write (s : Claims κ) (taskKey : κ) (completed : Bool) : Claims κ :=
  { s with row := some (⟨taskKey, completed⟩, s.writes), writes := s.writes + 1 }

/-- Delete a version of the row; and whether the store says so. -/
def delete (s : Claims κ) (etag : Nat) (goneOk : Bool) : Bool × Claims κ :=
  match s.row with
  | none => (goneOk, s)
  | some (_, current) => if current = etag then (true, { s with row := none }) else (false, s)

end Claims

section Model
variable [DecidableEq κ]

/-- What a check makes of the row it reads. -/
def Check.judge (taskKey : κ) (row : Option (Record κ × Nat)) (stale : Bool) : Check κ :=
  match row with
  | none => .answered taskKey .proceed
  | some (rec, etag) =>
    if rec.taskKey ≠ taskKey then
      if stale then .reaping taskKey etag false else .answered taskKey .proceed
    else if rec.completed then
      if stale then .reaping taskKey etag true else .answered taskKey .completed
    else if !stale then .answered taskKey .defer
    else .reaping taskKey etag false

namespace Claims

def runGuard (s : Claims κ) (i : Nat) (g : Guard κ) : Option (Claims κ) :=
  match g.place with
  | .spawning => some ((s.write g.taskKey false).goto i (.guard { g with place := .beating }))
  | .retaining => some (s.goto i (.guard { g with place := .reading }))
  | .reading =>
    match s.row with
    | some (rec, etag) =>
      if rec.taskKey ≠ g.taskKey then some (s.goto i (.guard { g with place := .ended }))
      else some (s.goto i (.guard { g with place := .deleting etag }))
    | none => some (s.goto i (.guard { g with place := .ended }))
  | .deleting etag => some ((s.delete etag true).2.goto i (.guard { g with place := .ended }))
  | .beating => none
  | .ended => none

def step (s : Claims κ) : Move κ → Option (Claims κ)
  | .spawn host taskKey =>
    -- one guard a host and key
    if s.threads.any fun t =>
        match t with
        | .guard g => g.host = host ∧ g.taskKey = taskKey ∧ g.place ≠ .ended
        | .check _ => false
    then some s
    else some { s with threads := s.threads ++ [.guard ⟨host, taskKey, .spawning⟩] }
  | .check taskKey => some { s with threads := s.threads ++ [.check (.arriving taskKey)] }
  | .run i =>
    match s.threads[i]? with
    | some (.guard g) => s.runGuard i g
    | _ => none
  | .heartbeat i =>
    match s.threads[i]? with
    | some (.guard ⟨_, taskKey, .beating⟩) => some (s.write taskKey false)
    | _ => none
  | .settle i failed =>
    match s.threads[i]? with
    | some (.guard ⟨host, taskKey, .beating⟩) =>
      if failed then some (s.goto i (.guard ⟨host, taskKey, .reading⟩))
      else some ((s.write taskKey true).goto i (.guard ⟨host, taskKey, .retaining⟩))
    | _ => none
  | .read i stale =>
    match s.threads[i]? with
    | some (.check (.arriving taskKey)) => some (s.goto i (.check (.judge taskKey s.row stale)))
    | _ => none
  | .reap i goneOk =>
    match s.threads[i]? with
    | some (.check (.reaping taskKey etag completed)) =>
      let (ok, s) := s.delete etag goneOk
      some (s.goto i (.check (.answered taskKey (if completed then .completed else if ok then .proceed else .defer))))
    | _ => none

end Claims

end Model

/-! ## Live guards -/

/-- After the first write and before the final delete. -/
def Guard.isLive (g : Guard κ) : Bool :=
  match g.place with
  | .spawning => false
  | .ended => false
  | _ => true

namespace Claims

/-- The thread guards a claim. -/
def GuardAt (s : Claims κ) (i : Nat) (g : Guard κ) : Prop := s.threads[i]? = some (.guard g) ∧ g.isLive = true

/-- While a guard is live, the row is its claim; and a version that a check is about to delete is
no live guard's. -/
structure Inv (s : Claims κ) : Prop where
  claimed : ∀ (i : Nat) (g : Guard κ), s.GuardAt i g → ∃ rec etag, s.row = some (rec, etag) ∧ rec.taskKey = g.taskKey
  fresh : ∀ rec etag, s.row = some (rec, etag) → etag < s.writes
  reaping : ∀ (i : Nat) taskKey etag completed, s.threads[i]? = some (.check (.reaping taskKey etag completed)) →
    etag < s.writes ∧ ∀ rec, s.row = some (rec, etag) → ∀ j g, ¬ s.GuardAt j g

/-- What is asked of a move. A guard writes only while no guard of another key is live, and makes
its final delete only while no other guard of its key is; and the oracle calls no claim stale
whose guard is live. -/
def Meets (s : Claims κ) : Move κ → Prop
  | .run i => ∀ g, s.threads[i]? = some (.guard g) →
      (g.place = .spawning → ∀ j g', s.GuardAt j g' → g'.taskKey = g.taskKey) ∧
      (∀ etag, g.place = .deleting etag → ∀ j g', s.GuardAt j g' → j ≠ i → g'.taskKey ≠ g.taskKey)
  | .heartbeat i => ∀ g, s.GuardAt i g → ∀ j g', s.GuardAt j g' → g'.taskKey = g.taskKey
  | .settle i failed => failed = false → ∀ g, s.GuardAt i g → ∀ j g', s.GuardAt j g' → g'.taskKey = g.taskKey
  | .read _ stale => stale = true → ∀ rec etag, s.row = some (rec, etag) → ∀ j g, s.GuardAt j g → g.taskKey ≠ rec.taskKey
  | _ => True

section Step
variable {s s' : Claims κ} {i : Nat} {t : Thread κ} {threads' : List (Thread κ)}

theorem inv_empty : (empty : Claims κ).Inv := by
  refine ⟨?_, ?_, ?_⟩
  · rintro i g ⟨hi, -⟩
    simp [empty] at hi
  · intro rec etag h
    cases h
  · intro i taskKey etag completed hi
    simp [empty] at hi

/-- The row stays, and no guard comes to life. -/
theorem Inv.keep (h : s.Inv)
    (hguards : ∀ (j : Nat) g, threads'[j]? = some (.guard g) → g.isLive = true →
      ∃ j' g', s.GuardAt j' g' ∧ g'.taskKey = g.taskKey)
    (hchecks : ∀ (j : Nat) taskKey etag completed, threads'[j]? = some (.check (.reaping taskKey etag completed)) →
      etag < s.writes ∧ ∀ rec, s.row = some (rec, etag) → ∀ j g, ¬ s.GuardAt j g) :
    Inv { s with threads := threads' } where
  claimed := by
    rintro j g ⟨hj, hlive⟩
    obtain ⟨j', g', hg', hkey⟩ := hguards j g hj hlive
    obtain ⟨rec, etag, hrow, hrec⟩ := h.claimed j' g' hg'
    exact ⟨rec, etag, hrow, hrec.trans hkey⟩
  fresh := h.fresh
  reaping := by
    intro j taskKey etag completed hj
    obtain ⟨hlt, hnone⟩ := hchecks j taskKey etag completed hj
    refine ⟨hlt, ?_⟩
    rintro rec hrow j' g ⟨hj', hlive⟩
    obtain ⟨j'', g', hg', -⟩ := hguards j' g hj' hlive
    exact hnone rec hrow j'' g' hg'

variable {taskKey taskKey' : κ} {t' : Thread κ} {g : Guard κ} {etag : Nat} {goneOk stale : Bool}
  {row : Option (Record κ × Nat)} {outcome : Outcome} {m : Move κ}

theorem Inv.write (h : s.Inv) (completed : Bool)
    (hguards : ∀ (j : Nat) g, threads'[j]? = some (.guard g) → g.isLive = true → g.taskKey = taskKey)
    (hchecks : ∀ (j : Nat) c, threads'[j]? = some (.check c) → s.threads[j]? = some (.check c)) :
    Inv { s.write taskKey completed with threads := threads' } where
  claimed := fun j g ⟨hj, hlive⟩ => ⟨_, _, rfl, (hguards j g hj hlive).symm⟩
  fresh := by
    intro rec etag hrow
    cases hrow
    exact Nat.lt_succ_self _
  reaping := by
    intro j key etag completed hj
    have hlt := (h.reaping j key etag completed (hchecks j _ hj)).1
    refine ⟨Nat.lt_succ_of_lt hlt, ?_⟩
    intro rec hrow
    -- the version is older than the one just written
    cases hrow
    exact absurd hlt (Nat.lt_irrefl _)

theorem Inv.gone (h : s.Inv) (hguards : ∀ (j : Nat) g, threads'[j]? = some (.guard g) → g.isLive = false)
    (hchecks : ∀ (j : Nat) taskKey etag completed, threads'[j]? = some (.check (.reaping taskKey etag completed)) →
      s.threads[j]? = some (.check (.reaping taskKey etag completed))) :
    Inv { s with row := none, threads := threads' } where
  claimed := by
    rintro j g ⟨hj, hlive⟩
    rw [hguards j g hj] at hlive
    cases hlive
  fresh := nofun
  reaping := fun j key etag completed hj =>
    ⟨(h.reaping j key etag completed (hchecks j key etag completed hj)).1, nofun⟩

theorem Inv.goto (h : s.Inv) (hi : s.threads[i]? = some t)
    (hguard : ∀ g', t' = .guard g' → g'.isLive = true → ∃ g, t = .guard g ∧ g.isLive = true ∧ g.taskKey = g'.taskKey)
    (hcheck : ∀ taskKey etag completed, t' = .check (.reaping taskKey etag completed) →
      etag < s.writes ∧ ∀ rec, s.row = some (rec, etag) → ∀ j g, ¬ s.GuardAt j g) : (s.goto i t').Inv := by
  refine h.keep ?_ ?_
  · intro j g hj hlive
    rcases at_set hj with ⟨rfl, heq⟩ | ⟨-, hold⟩
    · obtain ⟨g₀, rfl, hlive₀, hkey⟩ := hguard g heq.symm hlive
      exact ⟨j, g₀, ⟨hi, hlive₀⟩, hkey⟩
    · exact ⟨j, g, ⟨hold, hlive⟩, rfl⟩
  · intro j taskKey etag completed hj
    rcases at_set hj with ⟨rfl, heq⟩ | ⟨-, hold⟩
    · exact hcheck taskKey etag completed heq.symm
    · exact h.reaping j taskKey etag completed hold

theorem Inv.start (h : s.Inv) {t : Thread κ} (hguard : ∀ g, t = .guard g → g.isLive = false)
    (hcheck : ∀ taskKey etag completed, t ≠ .check (.reaping taskKey etag completed)) :
    Inv { s with threads := s.threads ++ [t] } := by
  refine h.keep ?_ ?_
  · intro j g hj hlive
    rcases at_append hj with hold | heq
    · exact ⟨j, g, ⟨hold, hlive⟩, rfl⟩
    · rw [hguard g heq.symm] at hlive
      cases hlive
  · intro j taskKey etag completed hj
    rcases at_append hj with hold | heq
    · exact h.reaping j taskKey etag completed hold
    · exact absurd heq.symm (hcheck taskKey etag completed)

theorem Inv.writeGoto (h : s.Inv) (completed : Bool) (hkey : g.taskKey = taskKey)
    (halone : ∀ j g', s.GuardAt j g' → g'.taskKey = taskKey) : ((s.write taskKey completed).goto i (.guard g)).Inv := by
  refine h.write completed ?_ ?_
  · intro j g' hj hlive
    rcases at_set hj with ⟨-, heq⟩ | ⟨-, hold⟩
    · cases heq
      exact hkey
    · exact halone j g' ⟨hold, hlive⟩
  · intro j c hj
    rcases at_set hj with ⟨-, heq⟩ | ⟨-, hold⟩
    · cases heq
    · exact hold

/-- A version of the row is deleted that is no other live guard's. -/
theorem Inv.delete (h : s.Inv) (hi : s.threads[i]? = some t) (hguard : ∀ g', t' = .guard g' → g'.isLive = false)
    (hcheck : ∀ taskKey etag completed, t' ≠ .check (.reaping taskKey etag completed))
    (hnone : ∀ rec, s.row = some (rec, etag) → ∀ j g, s.GuardAt j g → j = i) :
    ((s.delete etag goneOk).2.goto i t').Inv := by
  have hkeep : (s.goto i t').Inv := by
    refine h.goto hi ?_ ?_
    · intro g' heq hlive
      rw [hguard g' heq] at hlive
      cases hlive
    · intro taskKey etag completed heq
      exact absurd heq (hcheck taskKey etag completed)
  unfold Claims.delete
  split
  · exact hkeep
  · next rec current hrow =>
    split
    · next heq =>
      subst heq
      refine h.gone ?_ ?_
      · intro j g hj
        rcases at_set hj with ⟨-, heq⟩ | ⟨hne, hold⟩
        · exact hguard g heq.symm
        · by_contra hlive
          exact hne (hnone rec hrow j g ⟨hold, by simpa using hlive⟩)
      · intro j taskKey etag completed hj
        rcases at_set hj with ⟨-, heq⟩ | ⟨-, hold⟩
        · exact absurd heq.symm (hcheck taskKey etag completed)
        · exact hold
    · exact hkeep

theorem threads_delete : (s.delete etag goneOk).2.threads = s.threads := by
  unfold Claims.delete
  split
  · rfl
  · split <;> rfl

variable [DecidableEq κ]

theorem judge_reaping {completed : Bool} (h : Check.judge taskKey row stale = .reaping taskKey' etag completed) :
    stale = true ∧ ∃ rec, row = some (rec, etag) := by
  unfold Check.judge at h
  split at h
  · cases h
  · next rec etag' =>
    cases stale with
    | false =>
      split at h
      · cases h
      · split at h <;> cases h
    | true =>
      refine ⟨rfl, rec, ?_⟩
      split at h
      · simp at h
        simp [h]
      · split at h <;> simp at h <;> simp [h]

theorem judge_answered (h : Check.judge taskKey row stale = .answered taskKey' outcome) : taskKey = taskKey' := by
  unfold Check.judge at h
  repeat' split at h
  all_goals cases h
  all_goals rfl

theorem threads_runGuard (hs : s.runGuard i g = some s') : ∃ g', s'.threads = s.threads.set i (.guard g') := by
  unfold runGuard at hs
  repeat' split at hs
  all_goals cases hs
  all_goals simp only [goto, threads_delete]
  all_goals exact ⟨_, rfl⟩

theorem inv_runGuard (h : s.Inv) (hi : s.threads[i]? = some (.guard g)) (hm : s.Meets (.run i))
    (hs : s.runGuard i g = some s') : s'.Inv := by
  obtain ⟨hwrite, hdelete⟩ := hm g hi
  unfold runGuard at hs
  have hends : (s.goto i (.guard { g with place := .ended })).Inv :=
    h.goto hi (fun g' heq hlive => by cases heq; cases hlive) (nofun)
  have hgoes : g.isLive = true → ∀ place, (s.goto i (.guard { g with place := place })).Inv := fun hlive place =>
    h.goto hi (fun g' heq _ => by cases heq; exact ⟨g, rfl, hlive, rfl⟩) (nofun)
  cases hp : g.place with
  | spawning =>
    rw [hp] at hs
    cases hs
    exact h.writeGoto false rfl (hwrite hp)
  | retaining =>
    rw [hp] at hs
    cases hs
    exact hgoes (by simp [Guard.isLive, hp]) _
  | reading =>
    simp only [hp] at hs
    split at hs
    · split at hs
      · cases hs
        exact hends
      · cases hs
        exact hgoes (by simp [Guard.isLive, hp]) _
    · cases hs
      exact hends
  | deleting etag =>
    have hlive : g.isLive = true := by simp [Guard.isLive, hp]
    rw [hp] at hs
    cases hs
    refine h.delete hi (fun g' heq => by cases heq; rfl) (nofun) ?_
    intro rec hrow j g' hg'
    by_contra hne
    -- both claims would be in the one row
    obtain ⟨rec₁, _, hrow₁, hkey₁⟩ := h.claimed i g ⟨hi, hlive⟩
    obtain ⟨rec₂, _, hrow₂, hkey₂⟩ := h.claimed j g' hg'
    rw [hrow] at hrow₁ hrow₂
    cases hrow₁
    cases hrow₂
    exact hdelete etag hp j g' hg' hne (hkey₂.symm.trans hkey₁)
  | beating | ended => simp [hp] at hs

theorem inv_step (h : s.Inv) (hm : s.Meets m) (hs : s.step m = some s') : s'.Inv := by
  cases m with
  | spawn host taskKey =>
    simp only [step] at hs
    split at hs
    · cases hs
      exact h
    · cases hs
      exact h.start (fun g heq => by cases heq; rfl) (nofun)
  | check taskKey =>
    cases hs
    exact h.start (nofun) (nofun)
  | run i =>
    simp only [step] at hs
    split at hs
    · next hi => exact inv_runGuard h hi hm hs
    · cases hs
  | heartbeat i =>
    simp only [step] at hs
    split at hs
    · next hi =>
      cases hs
      exact h.write false (fun j g hj hlive => hm _ ⟨hi, rfl⟩ j g ⟨hj, hlive⟩) (fun j c hj => hj)
    · cases hs
  | settle i failed =>
    simp only [step] at hs
    split at hs
    · next hi =>
      split at hs
      · cases hs
        exact h.goto hi (fun g' heq _ => by cases heq; exact ⟨_, rfl, rfl, rfl⟩) (nofun)
      · next hf =>
        cases hs
        exact h.writeGoto true rfl (hm (by simpa using hf) _ ⟨hi, rfl⟩)
    · cases hs
  | read i stale =>
    simp only [step] at hs
    split at hs
    · next taskKey hi =>
      cases hs
      refine h.goto hi (nofun) ?_
      intro taskKey' etag completed heq
      obtain ⟨hstale, rec, hrow⟩ := judge_reaping (Thread.check.inj heq)
      refine ⟨h.fresh rec etag hrow, ?_⟩
      intro rec' hrow' j g hg
      obtain ⟨rec₀, etag₀, hrow₀, hkey⟩ := h.claimed j g hg
      exact hm hstale rec₀ etag₀ hrow₀ j g hg hkey.symm
    · cases hs
  | reap i goneOk =>
    simp only [step] at hs
    split at hs
    · next taskKey etag completed hi =>
      cases hs
      refine h.delete hi (nofun) (nofun) ?_
      intro rec hrow j g hg
      exact absurd hg ((h.reaping i taskKey etag completed hi).2 rec hrow j g)
    · cases hs

/-- A check gets its answer by reading the claim or by deleting it. -/
theorem step_answers (hs : s.step m = some s') (h : s'.threads[i]? = some (.check (.answered taskKey outcome))) :
    s.threads[i]? = some (.check (.answered taskKey outcome)) ∨
      (∃ stale, m = .read i stale ∧ Check.judge taskKey s.row stale = .answered taskKey outcome) ∨
      ∃ goneOk etag completed, m = .reap i goneOk ∧ s.threads[i]? = some (.check (.reaping taskKey etag completed)) ∧
        outcome = if completed then .completed else if (s.delete etag goneOk).1 then .proceed else .defer := by
  have hset : ∀ {j : Nat} {g : Guard κ}, (s.threads.set j (.guard g))[i]? = some (.check (.answered taskKey outcome)) →
      s.threads[i]? = some (.check (.answered taskKey outcome)) := by
    intro j g hj
    rcases at_set hj with ⟨-, heq⟩ | ⟨-, hold⟩
    · cases heq
    · exact hold
  have happend : ∀ {t : Thread κ}, t ≠ .check (.answered taskKey outcome) →
      (s.threads ++ [t])[i]? = some (.check (.answered taskKey outcome)) →
      s.threads[i]? = some (.check (.answered taskKey outcome)) := by
    intro t hne hj
    rcases at_append hj with hold | heq
    · exact hold
    · exact absurd heq.symm hne
  cases m with
  | spawn host taskKey' =>
    simp only [step] at hs
    split at hs
    · cases hs
      exact .inl h
    · cases hs
      exact .inl (happend (fun heq => by cases heq) h)
  | check taskKey' =>
    cases hs
    exact .inl (happend (fun heq => by cases heq) h)
  | run j =>
    simp only [step] at hs
    split at hs
    · next g _ =>
      obtain ⟨g', hthreads⟩ : ∃ g', s'.threads = s.threads.set j (.guard g') := threads_runGuard hs
      exact .inl (hset (hthreads ▸ h))
    · cases hs
  | heartbeat j =>
    simp only [step] at hs
    split at hs
    · cases hs
      exact .inl h
    · cases hs
  | settle j failed =>
    simp only [step] at hs
    split at hs
    · split at hs
      · cases hs
        exact .inl (hset h)
      · cases hs
        exact .inl (hset h)
    · cases hs
  | read j stale =>
    simp only [step] at hs
    split at hs
    · next taskKey' hj =>
      cases hs
      rcases at_set h with ⟨rfl, heq⟩ | ⟨-, hold⟩
      · have hjudge := Thread.check.inj heq
        obtain rfl := judge_answered hjudge.symm
        exact .inr (.inl ⟨stale, rfl, hjudge.symm⟩)
      · exact .inl hold
    · cases hs
  | reap j goneOk =>
    simp only [step] at hs
    split at hs
    · next taskKey' etag completed hj =>
      cases hs
      rw [Claims.goto, threads_delete] at h
      rcases at_set h with ⟨rfl, heq⟩ | ⟨-, hold⟩
      · cases heq
        exact .inr (.inr ⟨goneOk, etag, completed, rfl, hj, rfl⟩)
      · exact .inl hold
    · cases hs

/-! ## Whole runs -/

/-- What moves that meet the condition lead to. -/
def Reached : Claims κ → Prop := Reachable (· = empty) (Steps Meets step)

theorem Reached.inv (h : s.Reached) : s.Inv := by
  refine Reachable.invariant Inv ?_ ?_ h
  · rintro s rfl
    exact inv_empty
  · rintro s s' hinv ⟨m, hm, hs⟩
    exact inv_step hinv hm hs

/-- While a guard is live, no check of its key is answered to proceed. -/
theorem live_claim_protects (h : s.Reached) {m : Move κ} (hs : s.step m = some s') {taskKey : κ}
    (hbefore : s.threads[i]? ≠ some (.check (.answered taskKey .proceed)))
    (hafter : s'.threads[i]? = some (.check (.answered taskKey .proceed))) (hm : s.Meets m) :
    ∀ j g, s.GuardAt j g → g.taskKey ≠ taskKey := by
  intro j g hg hkey
  obtain ⟨rec, etag, hrow, hrec⟩ := h.inv.claimed j g hg
  rcases step_answers hs hafter with hold | ⟨stale, rfl, hjudge⟩ | ⟨goneOk, etag', completed, rfl, hreaping, hanswer⟩
  · exact hbefore hold
  · -- the row is the claim of that key, and not stale
    rw [hrow] at hjudge
    cases stale with
    | true => exact hm rfl rec etag hrow j g hg hrec.symm
    | false =>
      simp only [Check.judge, hrec.trans hkey, ne_eq, not_true_eq_false, if_false] at hjudge
      split at hjudge <;> cases hjudge
  · -- the version to delete is not the one that is there
    have hother : etag ≠ etag' := by
      rintro rfl
      exact (h.inv.reaping i taskKey etag completed hreaping).2 rec hrow j g hg
    have hkept : (s.delete etag' goneOk).1 = false := by simp [Claims.delete, hrow, hother]
    rw [hkept] at hanswer
    cases completed <;> cases hanswer

end Step

/-- A check of one key while a guard of another one is live. -/
theorem live_claim_protects_other :
    let s : Claims String := ⟨some (⟨"b", false⟩, 0), 1, [.guard ⟨0, "b", .beating⟩, .check (.arriving "a")]⟩
    let s' : Claims String := ⟨some (⟨"b", false⟩, 0), 1, [.guard ⟨0, "b", .beating⟩, .check (.answered "a" .proceed)]⟩
    s.step (.read 1 false) = some s' ∧ ∀ j g, s.GuardAt j g → g.taskKey ≠ "a" := by
  intro s s'
  have hreached : s.Reached := by
    refine .step (.step (.step (.start rfl) ⟨.spawn 0 "b", trivial, rfl⟩) ⟨.run 0, ?_, rfl⟩) ⟨.check "a", trivial, rfl⟩
    intro g hg
    cases hg
    refine ⟨fun _ j g' hg' => ?_, nofun⟩
    obtain ⟨hj, hlive⟩ := hg'
    have hmem := List.mem_of_getElem? hj
    simp only [empty, List.nil_append, List.mem_singleton] at hmem
    cases hmem
    cases hlive
  have hstep : s.step (.read 1 false) = some s' := rfl
  have hmeets : s.Meets (.read 1 false) := nofun
  exact ⟨hstep, live_claim_protects (i := 1) hreached hstep (nofun) rfl hmeets⟩

/-- The guard of an older scheduling writes its heartbeat over the claim of a newer one. -/
theorem heartbeat_hides_newer_claim :
    let s : Claims String := ⟨some (⟨"a", false⟩, 2), 3,
      [.guard ⟨0, "a", .beating⟩, .guard ⟨0, "b", .beating⟩, .check (.answered "b" .proceed)]⟩
    runFrom step empty
        [.spawn 0 "a", .run 0, .spawn 0 "b", .run 1, .heartbeat 0, .check "b", .read 2 false] = some s ∧
      s.GuardAt 1 ⟨0, "b", .beating⟩ := by
  exact ⟨rfl, rfl, rfl⟩

end Claims

end Dapr.Workflow.Claim
