import Dapr.Lib.Runs
import Mathlib.Logic.Function.Basic
/-!
# Streaming subscriptions

An application that subscribes over a stream is sent its messages there, and answers there. A call of
`Publish` registers a channel under the id of its message, sends the message and waits at the channel.
One goroutine receives the responses. It looks up the channel for the id of a response, and puts the
response into it if there is room for it.

What is done under the lock of the connection is one step. The inner maps of `publishResponses` have no
key but the connection itself, so an entry is left with the call whose channel it is.
-/

namespace Dapr.Streamer

open Lib.Runs Function

/-- A response of the application. As ghost data it has the call that was registered under its id when it
was received. -/
structure Response where
  id : String
  serial : Nat
  publisher : Option Nat
  deriving DecidableEq, Repr

/-- Where a call of `Publish` is. -/
inductive Pc where
  | entered
  | sending
  | waiting
  /-- Its context or the stream is done; it looks into its channel once more. -/
  | interrupted
  /-- Its cleanup is left to do. -/
  | leaving (result : Option Response)
  | returned (result : Option Response)
  deriving DecidableEq, Repr

def Pc.registered : Pc → Bool
  | .sending | .waiting | .interrupted | .leaving _ => true
  | .entered | .returned _ => false

def Pc.result : Pc → Option Response
  | .leaving result | .returned result => result
  | .entered | .sending | .waiting | .interrupted => none

structure Call where
  id : String
  pc : Pc
  deriving DecidableEq, Repr

/-- Where the goroutine is that receives the responses. -/
inductive RecvLoop where
  | idle
  | received (resp : Response)
  /-- It has looked up the channel of a call. -/
  | holding (k : Nat) (resp : Response)
  deriving DecidableEq, Repr

/-- A stream with its publish calls. -/
structure Conn where
  calls : Nat → Option Call
  publishResponses : String → Option Nat
  /-- What is in the channel of a call, which has room for one response. -/
  channels : Nat → Option Response
  recvLoop : RecvLoop
  received : Nat

/-- What the calls and the receiving loop do. -/
inductive Label where
  | publish (k : Nat) (id : String)
  /-- There is no stream, it is closed, or the envelope cannot be made. -/
  | refuse (k : Nat)
  | register (k : Nat)
  | send (k : Nat) (ok : Bool)
  | receive (k : Nat)
  | interrupt (k : Nat)
  | lookAgain (k : Nat)
  | cleanup (k : Nat)
  | recv (id : String)
  | lookup
  | notify

def Label.registering : Label → Option Nat
  | .register k => some k
  | _ => none

/-- The id of the response that is to be looked up. -/
def RecvLoop.awaited : RecvLoop → Option String
  | .received resp => some resp.id
  | .idle | .holding _ _ => none

namespace Conn

def new : Conn := ⟨fun _ => none, fun _ => none, fun _ => none, .idle, 0⟩

def setCall (c : Conn) (k : Nat) (call : Call) : Conn := { c with calls := update c.calls k (some call) }

def registerPublishResponse (c : Conn) (k : Nat) (id : String) : Conn :=
  { c with
    publishResponses := update c.publishResponses id (some k)
    channels := update c.channels k none }

/-- The entry goes, whoever has made it. -/
def unregister (c : Conn) (id : String) : Conn :=
  { c with publishResponses := update c.publishResponses id none }

/-- The call returns what is in its channel. -/
def take (c : Conn) (k : Nat) (id : String) (resp : Response) : Conn :=
  { c with channels := update c.channels k none }.setCall k ⟨id, .leaving (some resp)⟩

/-- A response is received, and then looked up and put into a channel by `notifyPublishResponse`, which holds
the lock for the lookup only. -/
def recvStep (c : Conn) : Label → Option Conn
  | .recv id =>
    match c.recvLoop with
    | .idle => some { c with
        recvLoop := .received ⟨id, c.received, c.publishResponses id⟩
        received := c.received + 1 }
    | _ => none
  | .lookup =>
    match c.recvLoop with
    | .received resp => some { c with recvLoop := (c.publishResponses resp.id).elim .idle fun k => .holding k resp }
    | _ => none
  | .notify =>
    match c.recvLoop with
    | .holding k resp => some { c with
        recvLoop := .idle
        channels := if c.channels k = none then update c.channels k (some resp) else c.channels }
    | _ => none
  | _ => none

def next (c : Conn) : Label → Option Conn
  | .publish k id => if c.calls k = none then some (c.setCall k ⟨id, .entered⟩) else none
  | .refuse k =>
    match c.calls k with
    | some ⟨id, .entered⟩ => some (c.setCall k ⟨id, .returned none⟩)
    | _ => none
  | .register k =>
    match c.calls k with
    | some ⟨id, .entered⟩ => some ((c.registerPublishResponse k id).setCall k ⟨id, .sending⟩)
    | _ => none
  | .send k ok =>
    match c.calls k with
    | some ⟨id, .sending⟩ => some (c.setCall k ⟨id, if ok then .waiting else .leaving none⟩)
    | _ => none
  | .receive k =>
    match c.calls k, c.channels k with
    | some ⟨id, .waiting⟩, some resp => some (c.take k id resp)
    | _, _ => none
  | .interrupt k =>
    match c.calls k with
    | some ⟨id, .waiting⟩ => some (c.setCall k ⟨id, .interrupted⟩)
    | _ => none
  | .lookAgain k =>
    match c.calls k, c.channels k with
    | some ⟨id, .interrupted⟩, some resp => some (c.take k id resp)
    | some ⟨id, .interrupted⟩, none => some (c.setCall k ⟨id, .leaving none⟩)
    | _, _ => none
  | .cleanup k =>
    match c.calls k with
    | some ⟨id, .leaving result⟩ => some ((c.unregister id).setCall k ⟨id, .returned result⟩)
    | _ => none
  | l => c.recvStep l

/-! ## Registrations -/

/-- The call is registered under the id. -/
def Registers (c : Conn) (k : Nat) (id : String) : Prop :=
  ∃ call, c.calls k = some call ∧ call.id = id ∧ call.pc.registered = true

/-- When a call registers, the id of its message has no entry, and no response with the id waits to be looked up. -/
def Meets (c : Conn) (l : Label) : Prop :=
  ∀ k ∈ l.registering, ∀ call ∈ c.calls k, c.publishResponses call.id = none ∧ c.recvLoop.awaited ≠ some call.id

instance (c : Conn) (l : Label) : Decidable (c.Meets l) :=
  inferInstanceAs (Decidable (∀ k ∈ l.registering, ∀ call ∈ c.calls k, _ ∧ _))

/-- The response is in the channel of the call, or the call returns it. -/
def Has (c : Conn) (k : Nat) (resp : Response) : Prop :=
  c.channels k = some resp ∨ ∃ call, c.calls k = some call ∧ call.pc.result = some resp

/-- The response carries the id of the call, and was received while the call was registered. -/
def Belongs (c : Conn) (k : Nat) (resp : Response) : Prop :=
  resp.publisher = some k ∧ ∃ call, c.calls k = some call ∧ call.id = resp.id

/-- The table has the calls that are registered, and responses are only at the calls they belong to. -/
structure Inv (c : Conn) : Prop where
  exact : ∀ k id, c.publishResponses id = some k ↔ c.Registers k id
  own : ∀ k resp, c.Has k resp → c.Belongs k resp
  received : ∀ resp, c.recvLoop = .received resp → ∀ k, c.publishResponses resp.id = some k → resp.publisher = some k
  holding : ∀ k resp, c.recvLoop = .holding k resp → c.Belongs k resp

variable {c c' : Conn} {k j : Nat} {call : Call} {pc : Pc} {resp : Response} {id : String}

/-- A call goes on: it keeps its id, it returns only what it has, channels are at most emptied, and the entry of a
response that waits to be looked up is not new. -/
theorem Inv.of_call (h : c.Inv) (call : Call) (hid : ∀ old, c.calls k = some old → call.id = old.id)
    (hresult : ∀ resp, call.pc.result = some resp → c.Has k resp) (hcalls : c'.calls = update c.calls k (some call))
    (hloop : c'.recvLoop = c.recvLoop) (hexact : ∀ j id, c'.publishResponses id = some j ↔ c'.Registers j id)
    (hchannels : ∀ j resp, c'.channels j = some resp → c.channels j = some resp)
    (hentry : ∀ resp, c.recvLoop = .received resp → ∀ j, c'.publishResponses resp.id = some j →
      c.publishResponses resp.id = some j) : c'.Inv := by
  have hbelongs : ∀ {j resp}, c.Belongs j resp → c'.Belongs j resp := by
    rintro j resp ⟨hpublisher, old, hj, hold⟩
    refine ⟨hpublisher, ?_⟩
    by_cases hjk : j = k
    · subst hjk
      exact ⟨call, by rw [hcalls, update_self], (hid old hj).trans hold⟩
    · exact ⟨old, by rw [hcalls, update_of_ne hjk, hj], hold⟩
  have hhas : ∀ {j resp}, c'.Has j resp → c.Has j resp := by
    rintro j resp (hchannel | ⟨call', hj, hres⟩)
    · exact .inl (hchannels j resp hchannel)
    · rw [hcalls] at hj
      by_cases hjk : j = k
      · subst hjk
        rw [update_self] at hj
        cases hj
        exact hresult resp hres
      · rw [update_of_ne hjk] at hj
        exact .inr ⟨call', hj, hres⟩
  refine ⟨hexact, fun j resp hj => hbelongs (h.own j resp (hhas hj)), ?_, fun j resp hl => ?_⟩
  · intro resp hl j hj
    rw [hloop] at hl
    exact h.received resp hl j (hentry resp hl j hj)
  · rw [hloop] at hl
    exact hbelongs (h.holding j resp hl)

theorem registers_setCall :
    (c.setCall k call).Registers j id ↔ if j = k then call.id = id ∧ call.pc.registered = true else c.Registers j id := by
  by_cases hj : j = k <;> simp [Registers, setCall, hj]

section
variable (h : c.Inv)
include h

/-- The call stays as registered as it was. -/
theorem Inv.setCall (hk : ∀ id, c.Registers k id ↔ call.id = id ∧ call.pc.registered = true)
    (hid : ∀ old, c.calls k = some old → call.id = old.id)
    (hresult : ∀ resp, call.pc.result = some resp → c.Has k resp) : (c.setCall k call).Inv := by
  refine h.of_call call hid hresult rfl rfl (fun j id => (h.exact j id).trans ?_) (fun _ _ => id) fun _ _ _ => id
  rw [registers_setCall]
  split
  · next hj => rw [hj, hk]
  · rfl

/-- A channel is emptied. -/
theorem Inv.drain (k : Nat) : Inv { c with channels := update c.channels k none } := by
  refine { h with own := fun j resp hhas => h.own j resp (hhas.imp_left fun hchannel => ?_) }
  by_cases hj : j = k
  · simp [hj] at hchannel
  · exact (update_of_ne hj _ _).symm.trans hchannel

/-- The entry of a call under its id is set or removed, where no other call has one. -/
theorem Inv.update (hcall : c.calls k = some call) (halone : ∀ j, c.publishResponses call.id = some j → j = k)
    (hpublish : c'.publishResponses =
      update c.publishResponses call.id (if pc.registered = true then some k else none))
    (hcalls : c'.calls = update c.calls k (some ⟨call.id, pc⟩)) (j : Nat) (id : String) :
    c'.publishResponses id = some j ↔ c'.Registers j id := by
  have hregisters : c'.Registers j id ↔ (c.setCall k ⟨call.id, pc⟩).Registers j id := by
    rw [Registers, hcalls]
    rfl
  rw [hregisters, registers_setCall, hpublish]
  have hself : c.Registers k id ↔ call.id = id ∧ call.pc.registered = true := by simp [Registers, hcall]
  by_cases hid : id = call.id
  · subst hid
    by_cases hj : j = k
    · simp [hj]
    · have hnot : ¬ c.Registers j call.id := fun hreg => hj (halone j ((h.exact j _).2 hreg))
      simp [hj, hnot, Ne.symm hj]
  · rw [update_of_ne hid, h.exact]
    by_cases hj : j = k
    · simp [hj, hself, Ne.symm hid]
    · simp [hj]

theorem Inv.entry (hk : c.calls k = some call) (hpc : call.pc.registered = true) :
    c.publishResponses call.id = some k := (h.exact k call.id).2 ⟨call, hk, rfl, hpc⟩

theorem Inv.register (hm : c.Meets (.register k)) (hk : c.calls k = some ⟨id, .entered⟩) :
    ((c.registerPublishResponse k id).setCall k ⟨id, .sending⟩).Inv := by
  obtain ⟨hfree, hloop⟩ := hm k rfl _ hk
  refine (h.drain k).of_call ⟨id, .sending⟩ ?_ (by simp [Pc.result]) rfl rfl ?_ (fun _ _ hc => hc) ?_
  · intro old hold
    cases hk.symm.trans hold
    rfl
  · refine h.update hk (fun j hj => ?_) rfl rfl
    cases hfree.symm.trans hj
  · intro resp hl j hj
    have hne : resp.id ≠ id := by
      rintro rfl
      exact hloop (congrArg RecvLoop.awaited hl)
    exact (update_of_ne hne _ _).symm.trans hj

theorem Inv.cleanup {result : Option Response} (hk : c.calls k = some ⟨id, .leaving result⟩) :
    ((c.unregister id).setCall k ⟨id, .returned result⟩).Inv := by
  refine h.of_call ⟨id, .returned result⟩ ?_ (fun resp hres => .inr ⟨_, hk, hres⟩) rfl rfl ?_
    (fun _ _ hc => hc) ?_
  · intro old hold
    cases hk.symm.trans hold
    rfl
  · refine h.update hk (fun j hj => ?_) rfl rfl
    exact Option.some.inj (hj.symm.trans (h.entry hk rfl))
  · intro resp _ j hj
    have hne : resp.id ≠ id := by
      intro heq
      simp [Conn.setCall, unregister, heq] at hj
    exact (update_of_ne hne _ _).symm.trans hj

/-- A call that does not register or clean up goes on. -/
theorem Inv.advance {pc' : Pc} (hk : c.calls k = some ⟨id, pc⟩) (hpc : pc'.registered = pc.registered)
    (hresult : ∀ resp, pc'.result = some resp → c.Has k resp) : (c.setCall k ⟨id, pc'⟩).Inv := by
  refine h.setCall (fun id' => ?_) (fun old hold => by cases hk.symm.trans hold; rfl) hresult
  simp [Registers, hk, hpc]

theorem Inv.take (hk : c.calls k = some ⟨id, pc⟩) (hpc : pc.registered = true)
    (hchannel : c.channels k = some resp) : (c.take k id resp).Inv := by
  -- the call is said to return the response before its channel is emptied
  have hnext : (c.setCall k ⟨id, .leaving (some resp)⟩).Inv := by
    refine h.advance hk hpc.symm fun resp' hres => ?_
    cases hres
    exact .inl hchannel
  exact hnext.drain k

theorem Inv.recvStep {l : Label} (hs : c.recvStep l = some c') : c'.Inv := by
  unfold Conn.recvStep at hs
  split at hs
  · split at hs
    · cases hs
      refine { h with received := fun resp heq k hentry => ?_, holding := nofun }
      cases heq
      exact hentry
    · cases hs
  · split at hs
    · next resp hloop =>
      cases hs
      cases hentry : c.publishResponses resp.id with
      | none => exact { h with received := nofun, holding := nofun }
      | some k =>
        refine { h with received := nofun, holding := fun k' resp' heq => ?_ }
        cases heq
        obtain ⟨call, hk, hid, -⟩ := (h.exact k resp.id).1 hentry
        exact ⟨h.received resp hloop k hentry, call, hk, hid⟩
    · cases hs
  · split at hs
    · next k resp hloop =>
      cases hs
      refine { h with own := fun j resp' hhas => ?_, received := nofun, holding := nofun }
      rcases hhas with hchannel | hresult
      · dsimp only at hchannel
        split at hchannel
        · by_cases hj : j = k
          · subst hj
            rw [update_self] at hchannel
            cases hchannel
            exact h.holding j resp hloop
          · rw [update_of_ne hj] at hchannel
            exact h.own j resp' (.inl hchannel)
        · exact h.own j resp' (.inl hchannel)
      · exact h.own j resp' (.inr hresult)
    · cases hs
  · cases hs

theorem Inv.next {l : Label} (hm : c.Meets l) (hs : c.next l = some c') : c'.Inv := by
  unfold Conn.next at hs
  split at hs
  · obtain ⟨hnone, rfl⟩ := of_guard hs
    exact h.setCall (by simp [Registers, hnone, Pc.registered]) (by simp [hnone]) (by simp [Pc.result])
  · split at hs
    · next hk =>
      cases hs
      exact h.advance hk rfl (by simp [Pc.result])
    · cases hs
  · split at hs
    · next hk =>
      cases hs
      exact h.register hm hk
    · cases hs
  · split at hs
    · next hk =>
      cases hs
      exact h.advance hk (by split <;> rfl) (by split <;> simp [Pc.result])
    · cases hs
  · split at hs
    · next hk hchannel =>
      cases hs
      exact h.take hk rfl hchannel
    · cases hs
  · split at hs
    · next hk =>
      cases hs
      exact h.advance hk rfl (by simp [Pc.result])
    · cases hs
  · split at hs
    · next hk hchannel =>
      cases hs
      exact h.take hk rfl hchannel
    · next hk _ =>
      cases hs
      exact h.advance hk rfl (by simp [Pc.result])
    · cases hs
  · split at hs
    · next hk =>
      cases hs
      exact h.cleanup hk
    · cases hs
  · exact h.recvStep hs

/-! ## Whole runs -/

/-- What calls return, and what they do to each other. -/
structure Faithful (c : Conn) : Prop where
  exact : ∀ k id, c.publishResponses id = some k ↔ c.Registers k id
  own : ∀ k call resp, c.calls k = some call → call.pc.result = some resp → resp.id = call.id ∧ resp.publisher = some k
  once : ∀ j k call call' resp, c.calls j = some call → c.calls k = some call' → call.pc.result = some resp →
    call'.pc.result = some resp → j = k
  apart : ∀ k l c', l = .register k ∨ l = .cleanup k → c.Meets l → c.next l = some c' → ∀ j ≠ k, ∀ id,
    c.publishResponses id = some j → c'.publishResponses id = some j ∧ c'.channels j = c.channels j

theorem Inv.apart {l : Label} (hl : l = .register k ∨ l = .cleanup k) (hm : c.Meets l)
    (hs : c.next l = some c') (hj : j ≠ k) (hentry : c.publishResponses id = some j) :
    c'.publishResponses id = some j ∧ c'.channels j = c.channels j := by
  rcases hl with rfl | rfl
  · simp only [Conn.next] at hs
    split at hs
    · next id' hk =>
      cases hs
      have hne : id ≠ id' := by
        rintro rfl
        cases (hm k rfl _ hk).1.symm.trans hentry
      exact ⟨(update_of_ne hne _ _).trans hentry, update_of_ne hj _ _⟩
    · cases hs
  · simp only [Conn.next] at hs
    split at hs
    · next id' result hk =>
      cases hs
      have hne : id ≠ id' := by
        rintro rfl
        exact hj (Option.some.inj (hentry.symm.trans (h.entry hk rfl)))
      exact ⟨(update_of_ne hne _ _).trans hentry, rfl⟩
    · cases hs

end

/-- As long as no call registers under an id that is taken, each response goes to the call that it is for, and no call
touches the registration of another. -/
theorem responses_reach_publisher (h : Reachable (· = new) (Steps Meets next) c) : c.Faithful := by
  have hinv : c.Inv := by
    refine Reachable.invariant Inv ?_ ?_ h
    · rintro c rfl
      exact ⟨by simp [new, Registers], by simp [new, Has], nofun, nofun⟩
    · rintro c c' hinv ⟨l, hm, hs⟩
      exact hinv.next hm hs
  have hown : ∀ k call resp, c.calls k = some call → call.pc.result = some resp →
      resp.id = call.id ∧ resp.publisher = some k := by
    intro k call resp hk hresult
    obtain ⟨hpublisher, call', hk', hid⟩ := hinv.own k resp (.inr ⟨call, hk, hresult⟩)
    cases hk.symm.trans hk'
    exact ⟨hid.symm, hpublisher⟩
  refine ⟨hinv.exact, hown, ?_, fun k l c' hl hm hs j hj id hentry => hinv.apart hl hm hs hj hentry⟩
  intro j k call call' resp hj hk hres hres'
  have hfirst := (hown j call resp hj hres).2
  exact Option.some.inj (hfirst.symm.trans (hown k call' resp hk hres').2)

/-- Two messages are under way at once and are answered the other way round. The first is sent again once its call has
returned, and answered again. -/
theorem responses_reach_publisher_answered :
    let ls : List Label := [.publish 0 "m", .register 0, .publish 1 "n", .send 0 true, .register 1, .send 1 true,
      .recv "n", .lookup, .notify, .recv "m", .lookup, .notify, .receive 0, .cleanup 0,
      .publish 2 "m", .register 2, .send 2 true, .recv "m", .lookup, .notify, .receive 2, .receive 1]
    let answered : List (Option Call) := [some ⟨"m", .returned (some ⟨"m", 1, some 0⟩)⟩,
      some ⟨"n", .leaving (some ⟨"n", 0, some 1⟩)⟩, some ⟨"m", .leaving (some ⟨"m", 2, some 2⟩)⟩]
    ∃ c, runFrom next new ls = some c ∧ [0, 1, 2].map c.calls = answered ∧ c.Faithful := by
  intro ls answered
  have hrun : (runFrom (guarded Meets next) new ls).map (fun c => [0, 1, 2].map c.calls) = some answered := by decide
  obtain ⟨c, hc, hcalls⟩ := Option.map_eq_some_iff.1 hrun
  exact ⟨c, runFrom_of_guarded hc, hcalls,
    responses_reach_publisher (reachable_of_guarded (.start rfl) hc)⟩

/-- A message is sent again while its first call still waits. The second registration replaces the first, the
cleanup of the first call removes that of the second, and the response to it finds nobody. -/
theorem cleanup_of_other_call :
    let twice : List Label := [.publish 0 "m", .register 0, .send 0 true, .publish 1 "m", .register 1, .send 1 true]
    (runFrom next new twice).map (fun c => (c.publishResponses "m", c.calls 0)) = some (some 1, some ⟨"m", .waiting⟩) ∧
      (runFrom next new (twice ++ [.interrupt 0, .lookAgain 0, .cleanup 0, .recv "m", .lookup])).map
        (fun c => (c.publishResponses "m", c.recvLoop, c.calls 1)) = some (none, .idle, some ⟨"m", .waiting⟩) := by
  decide

end Conn

end Dapr.Streamer
