import Dapr.Lib.Runs
import Dapr.Lib.Threads
/-!
# Local wake-ups

An event that was saved is driven on the host at once: `localDrive` posts a notification into
a channel of one slot and starts a drive loop if none is running; the loop runs a turn for each
notification and exits when there is none. Calls and loops run side by side, and each of their
operations on the channel and on the running flag is a step of its own.

The name of the reminder, which only selects what the turn is called, is left out, and so are
calls that do not drive at all.
-/

namespace Dapr.Workflow.Wake

open Lib.Threads Lib.Runs

/-- Where a call of localDrive is. -/
inductive Call where
  | entering
  /-- About to take the running flag. -/
  | posted
  /-- Has the flag; about to start the loop. -/
  | claimed
  /-- Has the flag, and found the wake context cancelled. -/
  | refused
  | returned
  deriving DecidableEq, Repr

/-- Where a drive loop is. -/
inductive Loop where
  | polling
  /-- Found nothing; about to release the flag. -/
  | releasing
  /-- Released the flag; about to look again. -/
  | rechecking
  /-- Found a notification after all; about to take the flag back. -/
  | reclaiming
  /-- Another loop has the flag; about to post the notification again. -/
  | reposting
  | turning
  /-- The turn failed for good; about to release the flag. -/
  | failing
  | exited
  deriving DecidableEq, Repr

inductive Thread where
  | localDrive (c : Call)
  | driveLoop (l : Loop)
  deriving DecidableEq, Repr

/-- The flags of an actor and who works on them. -/
structure Drive where
  driveNotify : Bool
  driveRunning : Bool
  wakeCtxErr : Bool
  threads : List Thread
  /-- Whether the wake context ever was cancelled. -/
  wasCancelled : Bool
  /-- Whether a loop has exited after a failed turn. -/
  turnFailed : Bool
  deriving DecidableEq, Repr

def Drive.idle : Drive := ⟨false, false, false, [], false, false⟩

inductive Move where
  | call
  /-- HaltAll cancels the wake context. -/
  | cancel
  | recreate
  | run (i : Nat)
  /-- The turn of a loop fails, and so do its retries. -/
  | failTurn (i : Nat)
  deriving DecidableEq, Repr

namespace Drive

def goto (s : Drive) (i : Nat) (t : Thread) : Drive := { s with threads := s.threads.set i t }

def stepCall (s : Drive) (i : Nat) : Call → Option Drive
  | .entering => some { s.goto i (.localDrive .posted) with driveNotify := true }
  | .posted =>
    if s.driveRunning then some (s.goto i (.localDrive .returned))
    else some { s.goto i (.localDrive .claimed) with driveRunning := true }
  | .claimed =>
    if s.wakeCtxErr then some (s.goto i (.localDrive .refused))
    else
      let s := s.goto i (.localDrive .returned)
      some { s with threads := s.threads ++ [.driveLoop .polling] }
  | .refused => some { s.goto i (.localDrive .returned) with driveRunning := false }
  | .returned => none

def stepLoop (s : Drive) (i : Nat) : Loop → Option Drive
  | .polling =>
    if s.driveNotify then some { s.goto i (.driveLoop .turning) with driveNotify := false }
    else some (s.goto i (.driveLoop .releasing))
  | .releasing => some { s.goto i (.driveLoop .rechecking) with driveRunning := false }
  | .rechecking =>
    if s.driveNotify then some { s.goto i (.driveLoop .reclaiming) with driveNotify := false }
    else some (s.goto i (.driveLoop .exited))
  | .reclaiming =>
    if s.driveRunning then some (s.goto i (.driveLoop .reposting))
    else some { s.goto i (.driveLoop .turning) with driveRunning := true }
  | .reposting => some { s.goto i (.driveLoop .exited) with driveNotify := true }
  | .turning => some (s.goto i (.driveLoop .polling))
  | .failing => some { s.goto i (.driveLoop .exited) with driveRunning := false, turnFailed := true }
  | .exited => none

def step (s : Drive) : Move → Option Drive
  | .call => some { s with threads := s.threads ++ [.localDrive .entering] }
  | .cancel => some { s with wakeCtxErr := true, wasCancelled := true }
  | .recreate => some { s with wakeCtxErr := false }
  | .run i =>
    match s.threads[i]? with
    | none => none
    | some (.localDrive c) => s.stepCall i c
    | some (.driveLoop l) => s.stepLoop i l
  | .failTurn i =>
    match s.threads[i]? with
    | some (.driveLoop .turning) => some (s.goto i (.driveLoop .failing))
    | _ => none

end Drive

/-! ## Who has the flag, and who will look -/

/-- The threads that hold the running flag. -/
def owns : Thread → Bool
  | .localDrive .claimed => true
  | .localDrive .refused => true
  | .driveLoop .polling => true
  | .driveLoop .releasing => true
  | .driveLoop .turning => true
  | .driveLoop .failing => true
  | _ => false

/-- The threads without the flag that will try to take it, or look for a notification. -/
def watches : Thread → Bool
  | .localDrive .posted => true
  | .driveLoop .rechecking => true
  | .driveLoop .reclaiming => true
  | _ => false

def reposts : Thread → Bool
  | .driveLoop .reposting => true
  | _ => false

def refuses : Thread → Bool
  | .localDrive .refused => true
  | _ => false

/-- The flag is held by one thread or none; and while a notification is there or will be posted
again, someone is going to look, unless the wake context was cancelled or a turn failed. -/
structure Drive.Inv (s : Drive) : Prop where
  owned : countAt owns s.threads = s.driveRunning.toNat
  seen : s.driveNotify = true ∨ 0 < countAt reposts s.threads → s.driveRunning = true ∨
    0 < countAt watches s.threads ∨ s.wasCancelled = true ∨ s.turnFailed = true
  refused : 0 < countAt refuses s.threads → s.wasCancelled = true
  cancelled : s.wakeCtxErr = true → s.wasCancelled = true

/-- No loop exits while another one is about to post a notification again. -/
def Drive.Meets (s : Drive) : Move → Prop
  | .run i => s.threads[i]? = some (.driveLoop .rechecking) → s.driveNotify = false →
      ∀ t ∈ s.threads, t ≠ .driveLoop .reposting
  | _ => True

instance (s : Drive) : (m : Move) → Decidable (s.Meets m)
  | .run _ => inferInstanceAs (Decidable (_ → _))
  | .call | .cancel | .recreate | .failTurn _ => .isTrue trivial

namespace Drive
variable {s s' : Drive} {i : Nat} {t : Thread}

theorem inv_idle : idle.Inv := ⟨rfl, by decide, by decide, by decide⟩

theorem countAt_goto (p : Thread → Bool) (hi : s.threads[i]? = some t) (t' : Thread) :
    countAt p (s.goto i t').threads + weight p t = countAt p s.threads + weight p t' :=
  countAt_set p hi t'

theorem Inv.running (h : s.Inv) (hi : s.threads[i]? = some t) (ht : owns t = true) : s.driveRunning = true := by
  have hpos := countAt_pos hi ht
  rw [h.owned] at hpos
  cases hr : s.driveRunning with
  | true => rfl
  | false => simp [hr] at hpos

/-- One thread moves on, and perhaps changes the channel and the flag. -/
theorem Inv.goto (h : s.Inv) (hi : s.threads[i]? = some t) (t' : Thread) (notify running failed : Bool)
    (howned : s.driveRunning.toNat + weight owns t' = running.toNat + weight owns t)
    (hrefuses : refuses t' = true → s.wasCancelled = true)
    (hseen : notify = true ∨ 0 < countAt reposts (s.goto i t').threads → running = true ∨
      0 < countAt watches (s.goto i t').threads ∨ s.wasCancelled = true ∨ failed = true) :
    Inv { s.goto i t' with driveNotify := notify, driveRunning := running, turnFailed := failed } where
  owned := by
    have hcount := countAt_goto owns hi t'
    have hold := h.owned
    show countAt owns (s.goto i t').threads = running.toNat
    omega
  seen := hseen
  refused := by
    intro hpos
    cases hr : refuses t' with
    | true => exact hrefuses hr
    | false =>
      have hcount := countAt_goto refuses hi t'
      rw [weight_of_neg hr] at hcount
      have hpos' : 0 < countAt refuses (s.goto i t').threads := hpos
      exact h.refused (by omega)
  cancelled := h.cancelled

theorem watched_goto (hi : s.threads[i]? = some t) {t' : Thread} (ht' : watches t' = true) :
    0 < countAt watches (s.goto i t').threads := by
  have hcount := countAt_goto watches hi t'
  rw [weight_of_pos ht'] at hcount
  have hle := weight_le_countAt watches hi
  omega

theorem inv_stepCall (h : s.Inv) {c : Call} (hi : s.threads[i]? = some (.localDrive c)) (hs : s.stepCall i c = some s') :
    s'.Inv := by
  cases c with
  | entering =>
    cases hs
    exact h.goto hi (.localDrive .posted) true s.driveRunning s.turnFailed rfl (nofun)
      fun _ => .inr (.inl (watched_goto hi rfl))
  | posted =>
    simp only [stepCall] at hs
    split at hs
    · next hr =>
      cases hs
      exact h.goto hi (.localDrive .returned) s.driveNotify s.driveRunning s.turnFailed rfl (nofun)
        fun _ => .inl hr
    · next hr =>
      cases hs
      exact h.goto hi (.localDrive .claimed) s.driveNotify true s.turnFailed (by simp [hr, weight, owns])
        (nofun) fun _ => .inl rfl
  | claimed =>
    have hr := h.running hi rfl
    simp only [stepCall] at hs
    split at hs
    · next hc =>
      cases hs
      exact h.goto hi (.localDrive .refused) s.driveNotify s.driveRunning s.turnFailed rfl
        (fun _ => h.cancelled hc) fun _ => .inl hr
    · -- the flag passes to the loop that is started
      cases hs
      have howns : countAt owns (s.threads.set i (.localDrive .returned) ++ [.driveLoop .polling]) + 1 =
          countAt owns s.threads + 0 + 1 := countAt_set_append owns hi _
      have hrefuses : countAt refuses (s.threads.set i (.localDrive .returned) ++ [.driveLoop .polling]) + 0 =
          countAt refuses s.threads + 0 + 0 := countAt_set_append refuses hi _
      refine ⟨?_, fun _ => .inl hr, fun hpos => h.refused ?_, h.cancelled⟩
      · exact (Nat.add_right_cancel howns).trans h.owned
      · have hpos' : 0 < countAt refuses (s.threads.set i (.localDrive .returned) ++ [.driveLoop .polling]) := hpos
        omega
  | refused =>
    have hc := h.refused (countAt_pos hi rfl)
    cases hs
    exact h.goto hi (.localDrive .returned) s.driveNotify false s.turnFailed
      (by simp [h.running hi rfl, weight, owns]) (nofun) fun _ => .inr (.inr (.inl hc))
  | returned => cases hs

/-- A loop moves on. -/
theorem Inv.gotoLoop (h : s.Inv) (hi : s.threads[i]? = some t) (l : Loop) (notify running failed : Bool)
    (howned : s.driveRunning.toNat + weight owns (.driveLoop l) = running.toNat + weight owns t)
    (hseen : notify = true ∨ 0 < countAt reposts (s.goto i (.driveLoop l)).threads → running = true ∨
      0 < countAt watches (s.goto i (.driveLoop l)).threads ∨ s.wasCancelled = true ∨ failed = true) :
    Inv { s.goto i (.driveLoop l) with driveNotify := notify, driveRunning := running, turnFailed := failed } :=
  h.goto hi _ _ _ _ howned (fun hrefuses => absurd hrefuses Bool.false_ne_true) hseen

theorem inv_stepLoop (h : s.Inv) {l : Loop} (hi : s.threads[i]? = some (.driveLoop l)) (hs : s.stepLoop i l = some s')
    (hmeets : s.Meets (.run i)) : s'.Inv := by
  cases l with
  | polling =>
    have hr := h.running hi rfl
    simp only [stepLoop] at hs
    split at hs
    · cases hs
      exact h.gotoLoop hi .turning false s.driveRunning s.turnFailed rfl fun _ => .inl hr
    · cases hs
      exact h.gotoLoop hi .releasing s.driveNotify s.driveRunning s.turnFailed rfl fun _ => .inl hr
  | releasing =>
    cases hs
    exact h.gotoLoop hi .rechecking s.driveNotify false s.turnFailed
      (by simp [h.running hi rfl, weight, owns]) fun _ => .inr (.inl (watched_goto hi rfl))
  | rechecking =>
    simp only [stepLoop] at hs
    split at hs
    · cases hs
      exact h.gotoLoop hi .reclaiming false s.driveRunning s.turnFailed rfl fun _ => .inr (.inl (watched_goto hi rfl))
    · -- nothing is there, and nothing will be posted again
      next hn =>
      cases hs
      have hnone : countAt reposts s.threads = 0 := by
        refine countAt_eq_zero.2 fun t ht => ?_
        have hne := hmeets hi (by simpa using hn) t ht
        cases t with
        | localDrive c => rfl
        | driveLoop l => cases l <;> first | rfl | exact absurd rfl hne
      have hcount : countAt reposts (s.goto i (.driveLoop .exited)).threads + 0 = countAt reposts s.threads + 0 :=
        countAt_goto reposts hi _
      refine h.gotoLoop hi .exited s.driveNotify s.driveRunning s.turnFailed rfl ?_
      rintro (hnotify | hpos)
      · exact absurd hnotify hn
      · omega
  | reclaiming =>
    simp only [stepLoop] at hs
    split at hs
    · next hr =>
      cases hs
      exact h.gotoLoop hi .reposting s.driveNotify s.driveRunning s.turnFailed rfl fun _ => .inl hr
    · next hr =>
      cases hs
      exact h.gotoLoop hi .turning s.driveNotify true s.turnFailed (by simp [hr, weight, owns])
        fun _ => .inl rfl
  | reposting =>
    cases hs
    have hwatches : countAt watches (s.goto i (.driveLoop .exited)).threads + 0 = countAt watches s.threads + 0 :=
      countAt_goto watches hi _
    have hseen := h.seen (.inr (countAt_pos hi rfl))
    exact h.gotoLoop hi .exited true s.driveRunning s.turnFailed rfl fun _ => (Nat.add_right_cancel hwatches).symm ▸ hseen
  | turning =>
    have hr := h.running hi rfl
    cases hs
    exact h.gotoLoop hi .polling s.driveNotify s.driveRunning s.turnFailed rfl fun _ => .inl hr
  | failing =>
    cases hs
    exact h.gotoLoop hi .exited s.driveNotify false true (by simp [h.running hi rfl, weight, owns])
      fun _ => .inr (.inr (.inr rfl))
  | exited => cases hs

theorem inv_step (h : s.Inv) {m : Move} (hmeets : s.Meets m) (hs : s.step m = some s') : s'.Inv := by
  cases m with
  | call =>
    cases hs
    have hcount : ∀ p : Thread → Bool, p (.localDrive .entering) = false →
        countAt p (s.threads ++ [.localDrive .entering]) = countAt p s.threads := by
      intro p hp
      rw [countAt_append, weight_of_neg hp]
      rfl
    refine ⟨?_, ?_, ?_, h.cancelled⟩
    · exact (hcount owns rfl).trans h.owned
    · rw [hcount reposts rfl, hcount watches rfl]
      exact h.seen
    · rw [hcount refuses rfl]
      exact h.refused
  | cancel =>
    cases hs
    exact ⟨h.owned, fun _ => .inr (.inr (.inl rfl)), fun _ => rfl, fun _ => rfl⟩
  | recreate =>
    cases hs
    exact ⟨h.owned, h.seen, h.refused, nofun⟩
  | run i =>
    simp only [step] at hs
    split at hs
    · cases hs
    · next hi => exact inv_stepCall h hi hs
    · next hi => exact inv_stepLoop h hi hs hmeets
  | failTurn i =>
    simp only [step] at hs
    split at hs
    · next hi =>
      have hr := h.running hi rfl
      cases hs
      exact h.gotoLoop hi .failing s.driveNotify s.driveRunning s.turnFailed rfl fun _ => .inl hr
    · cases hs

/-! ## Whole runs -/

/-- The states that runs from an idle actor reach, with every step meeting the condition. -/
def Reached : Drive → Prop := Reachable (· = idle) (Steps Meets step)

theorem Reached.inv (h : s.Reached) : s.Inv :=
  Reachable.invariant Inv (fun _ h => by rw [h]; exact inv_idle) (fun _ _ hi ⟨_, hm, hs⟩ => inv_step hi hm hs) h

/-- No call is between its post and its spawn, and no loop is alive. -/
def Quiet (s : Drive) : Prop :=
  ∀ t ∈ s.threads, t = .localDrive .entering ∨ t = .localDrive .returned ∨ t = .driveLoop .exited

instance (s : Drive) : Decidable s.Quiet :=
  inferInstanceAs (Decidable (∀ t ∈ s.threads, _))

/-- At most one loop runs turns, and when all is quiet no notification is pending, unless the wake
context was cancelled or a loop exited after a failed turn. -/
theorem wake_not_lost (h : s.Reached) :
    (∀ i j : Nat, s.threads[i]? = some (.driveLoop .turning) → s.threads[j]? = some (.driveLoop .turning) → i = j) ∧
      (s.Quiet → s.wasCancelled = false → s.turnFailed = false → s.driveNotify = false) := by
  have hinv := h.inv
  refine ⟨?_, ?_⟩
  · intro i j hi hj
    have hle : countAt owns s.threads ≤ 1 := by
      rw [hinv.owned]
      cases s.driveRunning <;> decide
    exact eq_of_countAt_le_one hle hi hj rfl rfl
  · intro hquiet hcancelled hfailed
    have hzero : ∀ p : Thread → Bool, p (.localDrive .entering) = false → p (.localDrive .returned) = false →
        p (.driveLoop .exited) = false → countAt p s.threads = 0 := by
      intro p he hr hx
      refine countAt_eq_zero.2 fun t ht => ?_
      rcases hquiet t ht with rfl | rfl | rfl
      · exact he
      · exact hr
      · exact hx
    have hrunning : s.driveRunning = false := by
      have := hinv.owned
      rw [hzero owns rfl rfl rfl] at this
      cases hr : s.driveRunning with
      | true => simp [hr] at this
      | false => rfl
    by_contra hnotify
    rcases hinv.seen (.inl (by simpa using hnotify)) with hr | hw | hc | hf
    · simp [hrunning] at hr
    · simp [hzero watches rfl rfl rfl] at hw
    · simp [hcancelled] at hc
    · simp [hfailed] at hf

/-- The loop of the first call finds the notification of the second one after it has released the flag, and posts it
again for the second loop. -/
theorem wake_not_lost_reposted :
    let s : Drive :=
      ⟨false, false, false, [.localDrive .returned, .driveLoop .exited, .localDrive .returned, .driveLoop .exited],
        false, false⟩
    let ms := .call :: List.replicate 3 (.run 0) ++ List.replicate 4 (.run 1) ++
      [.call, .run 2, .run 1, .run 2, .run 2, .run 1, .run 1] ++ List.replicate 5 (.run 3)
    runFrom step idle ms = some s ∧ s.driveNotify = false := by
  intro s ms
  have hreached : s.Reached := reachable_of_guarded (.start rfl) (show runFrom _ idle ms = some s by decide)
  exact ⟨by decide, (wake_not_lost hreached).2 (by decide) rfl rfl⟩

/-- The second loop finds nothing and exits before the notification is posted again. -/
theorem wake_lost_between_loops :
    let s : Drive :=
      ⟨true, false, false, [.localDrive .returned, .driveLoop .exited, .localDrive .returned, .driveLoop .exited],
        false, false⟩
    runFrom step idle (.call :: List.replicate 3 (.run 0) ++ List.replicate 4 (.run 1) ++
        [.call, .run 2, .run 1, .run 2, .run 2, .run 1, .run 3, .run 3, .run 3, .run 1]) = some s ∧
      s.Quiet ∧ s.wasCancelled = false ∧ s.turnFailed = false ∧ s.driveNotify = true := by
  decide

end Drive

end Dapr.Workflow.Wake
