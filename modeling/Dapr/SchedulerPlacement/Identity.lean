import Dapr.SchedulerPlacement.Frame
/-!
# Events reach the stream that emitted them

A controller touches only the stream that an event names. The event comes from that stream if it is
handed to the controller of the stream, and it is as long as no controller takes over a namespace
while events of the streams of an earlier one are queued. Then the streams that are counted are also
those that have not closed, and a controller is shut down for being empty only when all have.
-/

namespace Dapr.SchedulerPlacement

open Function List

/-! ## Streams and queues -/

def Delivery.adds (d : Delivery) : Bool := match d.event with
  | .connAdd _ => true
  | _ => false

namespace EventNamespace

/-- A stream of the controller reports its end. -/
def closes (k : Nat) : EventNamespace → Bool
  | .stream emitter _ .connCloseStream => emitter.controller == k
  | _ => false

def ofStream (ns : String) : EventNamespace → Bool
  | .stream _ ns' _ => ns' == ns
  | _ => false

theorem closes_iff {k : Nat} {e : EventNamespace} :
    e.closes k = true ↔ ∃ id ns, e = .stream id ns .connCloseStream ∧ id.controller = k := by
  constructor
  · intro h
    unfold closes at h
    split at h
    · next id ns => exact ⟨id, ns, rfl, by simpa using h⟩
    · cases h
  · rintro ⟨id, ns, rfl, rfl⟩
    exact beq_self_eq_true _

end EventNamespace

namespace ConnectionsLoop

/-- How many streams have not reported their end. -/
def live (l : ConnectionsLoop) : Nat := l.streams.countP fun s => !s.closed

/-- How many streams are not registered yet. -/
def adding (l : ConnectionsLoop) : Nat := l.queue.countP Delivery.adds

/-- The controller is shut down and its streams have ended. -/
def Over (l : ConnectionsLoop) : Prop := l.down = true ∧ ∀ s ∈ l.streams, s.ended = true

/-- What streams told this controller came from its own, which it numbers as they come. -/
structure Own (k : Nat) (l : ConnectionsLoop) : Prop where
  sent : ∀ d ∈ l.queue, ∀ id, d.emitter = some id →
    id.controller = k ∧ ∃ e : StreamEvent, d.event = e.forController id.idx
  numbered : l.controller.streamIDx = l.streams.length
  registered : ∀ i ∈ l.controller.streams, i < l.controller.streamIDx

/-- The streams counted are the live ones, those to be registered, and those whose end is to be handled. -/
def Counts (q : List EventNamespace) (k : Nat) (l : ConnectionsLoop) : Prop :=
  l.connections = l.live + l.adding + q.countP (EventNamespace.closes k)

variable {k : Nat} {l : ConnectionsLoop} {q : List EventNamespace}

theorem Own.enqueue (h : l.Own k) {d : Delivery}
    (hd : ∀ id, d.emitter = some id → id.controller = k ∧ ∃ e : StreamEvent, d.event = e.forController id.idx) :
    (l.enqueue d).Own k :=
  { h with sent := fun d' hd' => (mem_append.1 hd').elim (h.sent d') fun hnew => mem_singleton.1 hnew ▸ hd }

theorem Own.handle (h : l.Own k) (ranges : Ranges) {e : EventConnections} {rest : List Delivery}
    (hrest : rest ⊆ l.queue) (he : ∀ initial, e ≠ .connAdd initial) :
    Own k { l with queue := rest, controller := l.controller.handle ranges e } := by
  obtain ⟨hidx, hstreams⟩ := Connections.handle_registered ranges l.controller he
  exact ⟨fun d hd => h.sent d (hrest hd), hidx.trans h.numbered, fun i hi => hidx ▸ h.registered i (hstreams i hi)⟩

theorem Own.add (h : l.Own k) (ranges : Ranges) (initial : ActorHost) {rest : List Delivery} (hrest : rest ⊆ l.queue) :
    Own k { l with
      queue := rest
      controller := l.controller.handle ranges (.connAdd initial)
      streams := l.streams ++ [⟨false, false⟩] } := by
  have honly := Connections.only_handleAdd ranges l.controller initial
  refine ⟨fun d hd => h.sent d (hrest hd), ?_, fun i hi => ?_⟩
  · rw [length_append, ← h.numbered]
    exact honly.streamIDx
  · refine lt_of_lt_of_eq ?_ honly.streamIDx.symm
    exact Connections.streams_lt_addStream h.registered i (honly.registered i hi)

end ConnectionsLoop

namespace Namespaces

open ConnectionsLoop Lib.Runs

/-- No event of an earlier stream of the namespace is queued when a controller is created for it. -/
def Fresh (n : Namespaces) : Action → Prop
  | .dispatch => match n.queue with
    | .connAdd ns _ :: rest => n.accepting = true → n.namespaces.lookup ns = none → ∀ e ∈ rest, e.ofStream ns = false
    | _ => True
  | _ => True

/-- Controllers, the namespaces they stand for, and the events that are queued for them. -/
structure Inv (n : Namespaces) : Prop where
  unborn : ∀ k, n.created ≤ k → (n.loops k).queue = [] ∧ (n.loops k).streams = []
  emitted : ∀ id ns e, .stream id ns e ∈ n.queue → id.controller < n.created ∧ (n.loops id.controller).ns = ns
  current : ∀ ns k, n.namespaces.lookup ns = some k → k < n.created ∧ (n.loops k).ns = ns
  waited : ∀ k ∈ n.closing, n.namespaces.lookup (n.loops k).ns = none
  finished : ∀ k, k < n.created → n.namespaces.lookup (n.loops k).ns = some k ∨ k ∈ n.closing ∨ (n.loops k).Over
  routed : ∀ id ns e k, .stream id ns e ∈ n.queue → n.namespaces.lookup ns = some k → id.controller = k
  own : ∀ k, (n.loops k).Own k
  counted : ∀ ns k, n.namespaces.lookup ns = some k → Counts n.queue k (n.loops k)

variable {n n' : Namespaces}

theorem inv_new (coalesceWindow : Int) : (new coalesceWindow).Inv where
  unborn := fun _ _ => ⟨rfl, rfl⟩
  emitted := fun _ _ _ he => absurd he not_mem_nil
  current := nofun
  waited := fun _ hk => absurd hk not_mem_nil
  finished := fun _ hk => absurd hk (Nat.not_lt_zero _)
  routed := fun _ _ _ _ he => absurd he not_mem_nil
  own := fun _ => ⟨fun _ hd => absurd hd not_mem_nil, rfl, fun _ hi => absurd hi not_mem_nil⟩
  counted := nofun

variable {i k : Nat} {e : EventNamespace} {rest : List Delivery} {ns : String} {q : List EventNamespace}
  {l : ConnectionsLoop} {id : StreamId} {ranges : Ranges} {s : StreamStatus}

section
variable (h : n.Inv)
include h

theorem Inv.lookup_self (hk : n.namespaces.lookup ns = some k) : n.namespaces.lookup (n.loops k).ns = some k := by
  rw [(h.current ns k hk).2, hk]

/-- The queue changes, but not in the events of streams. -/
theorem Inv.requeue (hq : ∀ id ns e, .stream id ns e ∈ q → .stream id ns e ∈ n.queue)
    (hcount : ∀ ns k, n.namespaces.lookup ns = some k →
      q.countP (EventNamespace.closes k) = n.queue.countP (EventNamespace.closes k)) : Inv { n with queue := q } :=
  { h with
    emitted := fun id ns e he => h.emitted id ns e (hq id ns e he)
    routed := fun id ns e k he => h.routed id ns e k (hq id ns e he)
    counted := fun ns k hk => by
      unfold Counts
      rw [hcount ns k hk]
      exact h.counted ns k hk }

theorem Inv.pop {rest : List EventNamespace} (hq : n.queue = e :: rest)
    (he : ∀ ns k, n.namespaces.lookup ns = some k → e.closes k = false) : Inv { n with queue := rest } := by
  refine h.requeue (fun id ns e' he' => hq ▸ mem_cons_of_mem _ he') fun ns k hk => ?_
  rw [hq, countP_cons_of_neg (by simp [he ns k hk])]

theorem Inv.enqueue (he : ∀ id ns event, e ≠ .stream id ns event) : (n.enqueue e).Inv := by
  refine h.requeue (fun id ns event hmem => ?_) fun ns k _ => ?_
  · exact (mem_append.1 hmem).resolve_right fun hnew => he id ns event (mem_singleton.1 hnew).symm
  · cases e with
    | stream id ns event => exact absurd rfl (he id ns event)
    | _ => simp [EventNamespace.closes]

/-- One controller changes, and with it the events of its streams that are queued. -/
theorem Inv.update (hk : k < n.created) (hns : l.ns = (n.loops k).ns) (hover : (n.loops k).Over → l.Over)
    (hown : l.Own k) (hq : ∀ id ns e, .stream id ns e ∈ q →
      .stream id ns e ∈ n.queue ∨ id.controller = k ∧ ns = (n.loops k).ns ∧ ¬ (n.loops k).Over)
    (hcount : n.namespaces.lookup (n.loops k).ns = some k → Counts q k l)
    (hother : ∀ k', k' ≠ k → q.countP (EventNamespace.closes k') = n.queue.countP (EventNamespace.closes k')) :
    Inv { n.setLoop k l with queue := q } := by
  have hloops : ∀ k', k' ≠ k → (n.setLoop k l).loops k' = n.loops k' := fun k' hne => update_of_ne hne _ _
  have hself : (n.setLoop k l).loops k = l := update_self ..
  have hname : ∀ k', ((n.setLoop k l).loops k').ns = (n.loops k').ns := by
    intro k'
    by_cases heq : k' = k
    · rw [heq, hself, hns]
    · rw [hloops k' heq]
  constructor
  case unborn =>
    intro k' hk'
    have hne : k' ≠ k := fun heq => Nat.not_le_of_lt hk (heq ▸ hk')
    exact hloops k' hne ▸ h.unborn k' hk'
  case emitted =>
    intro id ns e he
    rw [hname]
    rcases hq id ns e he with hold | ⟨rfl, rfl, -⟩
    · exact h.emitted id ns e hold
    · exact ⟨hk, rfl⟩
  case current =>
    intro ns k' hk'
    exact ⟨(h.current ns k' hk').1, (hname k').trans (h.current ns k' hk').2⟩
  case waited =>
    intro k' hk'
    rw [hname]
    exact h.waited k' hk'
  case finished =>
    intro k' hk'
    rw [hname]
    refine (h.finished k' hk').imp_right (Or.imp_right fun hdone => ?_)
    by_cases heq : k' = k
    · rw [heq, hself]
      exact hover (heq ▸ hdone)
    · exact hloops k' heq ▸ hdone
  case routed =>
    intro id ns e k' he hk'
    rcases hq id ns e he with hold | ⟨rfl, rfl, hlive⟩
    · exact h.routed id ns e k' hold hk'
    · -- a stream that is not over belongs to the controller of its namespace, if there is one
      rcases h.finished _ hk with hcur | hclosing | hdone
      · exact Option.some_inj.1 (hcur.symm.trans hk')
      · cases (h.waited _ hclosing).symm.trans hk'
      · exact absurd hdone hlive
  case own =>
    intro k'
    by_cases heq : k' = k
    · rw [heq, hself]
      exact hown
    · rw [hloops k' heq]
      exact h.own k'
  case counted =>
    intro ns k' hk'
    by_cases heq : k' = k
    · rw [heq, hself]
      exact hcount (h.lookup_self (heq ▸ hk'))
    · rw [hloops k' heq, Counts, hother k' heq]
      exact h.counted ns k' hk'

/-! ## What the loop for all namespaces does -/

theorem Inv.create (hidle : n.closing = []) (hnone : n.namespaces.lookup ns = none)
    (hfresh : ∀ e ∈ n.queue, e.ofStream ns = false) (hns : l.ns = ns) (hown : l.Own n.created)
    (hcount : l.connections = l.live + l.adding) :
    Inv { n.setLoop n.created l with created := n.created + 1, namespaces := n.namespaces.insert ns n.created } := by
  have hloops : ∀ k, k < n.created → (n.setLoop n.created l).loops k = n.loops k :=
    fun k hk => update_of_ne (Nat.ne_of_lt hk) _ _
  have hself : (n.setLoop n.created l).loops n.created = l := update_self ..
  have hlookup : ∀ {ns' k}, (n.namespaces.insert ns n.created).lookup ns' = some k →
      ns' = ns ∧ k = n.created ∨ ns' ≠ ns ∧ n.namespaces.lookup ns' = some k := by
    intro ns' k hk
    by_cases heq : ns' = ns
    · subst heq
      rw [AList.lookup_insert] at hk
      exact .inl ⟨rfl, (Option.some_inj.1 hk).symm⟩
    · rw [AList.lookup_insert_ne heq] at hk
      exact .inr ⟨heq, hk⟩
  constructor
  case unborn =>
    intro k hk
    have hne : k ≠ n.created := Nat.ne_of_gt hk
    rw [show (n.setLoop n.created l).loops k = n.loops k from update_of_ne hne _ _]
    exact h.unborn k (Nat.le_of_lt hk)
  case emitted =>
    intro id ns' e he
    obtain ⟨hlt, hname⟩ := h.emitted id ns' e he
    exact ⟨Nat.lt_succ_of_lt hlt, (hloops _ hlt).symm ▸ hname⟩
  case current =>
    intro ns' k hk
    rcases hlookup hk with ⟨rfl, rfl⟩ | ⟨-, hold⟩
    · exact ⟨Nat.lt_succ_self _, hself.symm ▸ hns⟩
    · obtain ⟨hlt, hname⟩ := h.current ns' k hold
      exact ⟨Nat.lt_succ_of_lt hlt, (hloops k hlt).symm ▸ hname⟩
  case waited =>
    intro k hk
    exact absurd (hidle ▸ hk) not_mem_nil
  case finished =>
    intro k hk
    rcases Nat.lt_succ_iff_lt_or_eq.1 hk with hlt | rfl
    · rw [hloops k hlt]
      refine (h.finished k hlt).imp_left fun hcur => ?_
      have hne : (n.loops k).ns ≠ ns := by
        intro heq
        rw [heq, hnone] at hcur
        cases hcur
      rw [AList.lookup_insert_ne hne]
      exact hcur
    · left
      rw [hself, hns, AList.lookup_insert]
  case routed =>
    intro id ns' e k he hk
    rcases hlookup hk with ⟨rfl, rfl⟩ | ⟨-, hold⟩
    · have := hfresh _ he
      simp [EventNamespace.ofStream] at this
    · exact h.routed id ns' e k he hold
  case own =>
    intro k
    by_cases heq : k = n.created
    · rw [heq, hself]
      exact hown
    · rw [show (n.setLoop n.created l).loops k = n.loops k from update_of_ne heq _ _]
      exact h.own k
  case counted =>
    intro ns' k hk
    change Counts n.queue k ((n.setLoop n.created l).loops k)
    rcases hlookup hk with ⟨rfl, rfl⟩ | ⟨-, hold⟩
    · have hnew : n.queue.countP (EventNamespace.closes n.created) = 0 := by
        refine countP_eq_zero.2 fun e he hcloses => ?_
        obtain ⟨id, ns', rfl, hid⟩ := EventNamespace.closes_iff.1 hcloses
        exact absurd hid (Nat.ne_of_lt (h.emitted id ns' _ he).1)
      rw [hself, Counts, hnew, hcount]
      rfl
    · rw [hloops k (h.current ns' k hold).1]
      exact h.counted ns' k hold

theorem Inv.handleAdd (hidle : n.closing = []) {initial : ActorHost}
    (hfresh : n.accepting = true → n.namespaces.lookup ns = none → ∀ e ∈ n.queue, e.ofStream ns = false) :
    (n.handleAdd ns initial).Inv := by
  unfold Namespaces.handleAdd
  split
  · exact h
  · next haccept =>
    split
    · next k hk =>
      have hown : ((n.loops k).enqueue ⟨none, .connAdd initial⟩).Own k := (h.own k).enqueue nofun
      refine h.update (h.current ns k hk).1 rfl (fun hdone => hdone) { hown with } (fun _ _ _ he => .inl he)
        (fun hcur => ?_) fun _ _ => rfl
      have hcount : (n.loops k).connections = _ := h.counted ns k hk
      rw [Counts, hcount]
      simp only [live, adding, ConnectionsLoop.enqueue, countP_append, Delivery.adds, countP_singleton,
        if_true]
      omega
    · next hnone =>
      refine h.create hidle hnone (hfresh (by simpa using haccept) hnone) rfl ⟨fun d hd id hid => ?_, rfl, ?_⟩ rfl
      · rw [mem_singleton.1 hd] at hid
        cases hid
      · exact fun i hi => absurd hi not_mem_nil

/-- Controllers that are closed are those of no namespace any more. -/
theorem Inv.close (hidle : n.closing = []) {closing : List Nat} {namespaces : AList fun _ : String => Nat}
    (hclosing : ∀ k ∈ closing, k < n.created ∧ namespaces.lookup (n.loops k).ns = none)
    (hkept : ∀ ns k, n.namespaces.lookup ns = some k → k ∈ closing ∨ namespaces.lookup ns = some k)
    (hsub : ∀ ns k, namespaces.lookup ns = some k → n.namespaces.lookup ns = some k) :
    Inv { n.close closing with namespaces := namespaces } := by
  have hname : ∀ k, ((n.close closing).loops k).ns = (n.loops k).ns := by
    intro k
    simp only [Namespaces.close]
    split <;> rfl
  have hopen : ∀ k, k ∉ closing → (n.close closing).loops k = n.loops k := fun k hk => if_neg hk
  constructor
  case unborn =>
    intro k hk
    have hout : k ∉ closing := fun hmem => Nat.not_le_of_lt (hclosing k hmem).1 hk
    exact (hopen k hout).symm ▸ h.unborn k hk
  case emitted => exact fun id ns e he => ⟨(h.emitted id ns e he).1, (hname _).trans (h.emitted id ns e he).2⟩
  case current =>
    intro ns k hk
    obtain ⟨hlt, hns⟩ := h.current ns k (hsub ns k hk)
    exact ⟨hlt, (hname k).trans hns⟩
  case waited =>
    intro k hk
    rw [hname]
    exact (hclosing k hk).2
  case finished =>
    intro k hk
    by_cases hmem : k ∈ closing
    · exact .inr (.inl hmem)
    · rw [hopen k hmem]
      rcases h.finished k hk with hcur | hwaited | hdone
      · exact .inl ((hkept _ k hcur).resolve_left hmem)
      · exact absurd (hidle ▸ hwaited) not_mem_nil
      · exact .inr (.inr hdone)
  case routed => exact fun id ns e k he hk => h.routed id ns e k he (hsub ns k hk)
  case own =>
    intro k
    change Own k (if k ∈ closing then (n.loops k).enqueue ⟨none, .shutdown⟩ else n.loops k)
    split
    · exact (h.own k).enqueue nofun
    · exact h.own k
  case counted =>
    intro ns k hk
    have hout : k ∉ closing := by
      intro hmem
      have hnone := (hclosing k hmem).2
      rw [(h.current ns k (hsub ns k hk)).2] at hnone
      cases hnone.symm.trans hk
    exact (hopen k hout).symm ▸ h.counted ns k (hsub ns k hk)

theorem Inv.handleSetLeader (hidle : n.closing = []) (leader : Bool) : (n.handleSetLeader leader).Inv := by
  unfold Namespaces.handleSetLeader
  split
  · exact h
  · split
    · exact { h with }
    · have haccepting : Inv { n with accepting := leader } := { h with }
      refine haccepting.close hidle (fun k hk => ⟨?_, rfl⟩) (fun ns k hk => .inl ?_) nofun
      · obtain ⟨⟨ns, k'⟩, hmem, rfl⟩ := mem_map.1 hk
        exact (h.current ns k' (AList.mem_lookup_iff.2 hmem)).1
      · exact mem_map.2 ⟨⟨ns, k⟩, AList.mem_lookup_iff.1 hk, rfl⟩

theorem Inv.handleCloseNamespace (hidle : n.closing = []) (ns : String) : (n.handleCloseNamespace ns).Inv := by
  unfold Namespaces.handleCloseNamespace
  split
  · exact h
  · next k hk =>
    split
    · exact h
    · refine h.close hidle (fun k' hk' => ?_) (fun ns' k' hk' => ?_) fun ns' k' hk' => ?_
      · obtain rfl := mem_singleton.1 hk'
        obtain ⟨hlt, hns⟩ := h.current ns k' hk
        exact ⟨hlt, hns ▸ AList.lookup_erase ns n.namespaces⟩
      · by_cases heq : ns' = ns
        · subst heq
          exact .inl (mem_singleton.2 (Option.some_inj.1 (hk'.symm.trans hk)))
        · exact .inr ((AList.lookup_erase_ne heq).trans hk')
      · by_cases heq : ns' = ns
        · subst heq
          rw [AList.lookup_erase] at hk'
          cases hk'
        · exact (AList.lookup_erase_ne heq).symm.trans hk'

/-- An event of a stream is handed to the controller of the stream, or to none. -/
theorem Inv.route {e : StreamEvent} {rest : List EventNamespace} (hq : n.queue = .stream id ns e :: rest) :
    (route { n with queue := rest } id ns e).Inv := by
  have hhead : .stream id ns e ∈ n.queue := hq ▸ mem_cons_self
  unfold Namespaces.route
  split
  · next hnone =>
    refine h.pop hq fun ns' k hk => Bool.eq_false_iff.2 fun hcloses => ?_
    obtain ⟨id', ns'', heq, rfl⟩ := EventNamespace.closes_iff.1 hcloses
    obtain ⟨rfl, rfl, -⟩ := EventNamespace.stream.inj heq
    have hns := (h.emitted id ns e hhead).2
    rw [(h.current ns' _ hk).2] at hns
    subst hns
    cases hnone.symm.trans hk
  · next k hk =>
    have hid := h.routed id ns e k hhead hk
    have hown : ((n.loops k).enqueue ⟨some id, e.forController id.idx⟩).Own k := by
      refine (h.own k).enqueue fun id' hid' => ?_
      cases hid'
      exact ⟨hid, e, rfl⟩
    refine h.update (h.current ns k hk).1 rfl (fun hdone => hdone) { hown with }
      (fun _ _ _ he => .inl (hq ▸ mem_cons_of_mem _ he)) (fun _ => ?_) fun k' hne => ?_
    · have hcount : (n.loops k).connections = _ := h.counted ns k hk
      rw [hq] at hcount
      unfold Counts live adding ConnectionsLoop.enqueue
      cases e with
      | connCloseStream =>
        rw [countP_cons_of_pos (EventNamespace.closes_iff.2 ⟨id, ns, rfl, hid⟩)] at hcount
        exact (congrArg (· - 1) hcount).trans (by simp [Delivery.adds, StreamEvent.forController, live, adding])
      | _ =>
        simpa [Delivery.adds, StreamEvent.forController, EventNamespace.closes, live, adding] using hcount
    · rw [hq, countP_cons_of_neg]
      intro hcloses
      obtain ⟨id', ns', heq, rfl⟩ := EventNamespace.closes_iff.1 hcloses
      obtain ⟨rfl, -, -⟩ := EventNamespace.stream.inj heq
      exact hne hid

theorem Inv.dispatch (hfresh : n.Fresh .dispatch) (hnext : n.next .dispatch = some n') : n'.Inv := by
  simp only [next] at hnext
  split at hnext
  · next e rest hidle hq =>
    cases hnext
    cases e with
    | connAdd ns initial =>
      simp only [Fresh, hq] at hfresh
      exact (h.pop hq fun _ _ _ => rfl).handleAdd hidle hfresh
    | setLeader leader => exact (h.pop hq fun _ _ _ => rfl).handleSetLeader hidle leader
    | stream id ns event => exact h.route hq
    | connCloseNamespace ns => exact (h.pop hq fun _ _ _ => rfl).handleCloseNamespace hidle ns
  · cases hnext

/-! ## What controllers and streams do -/

theorem Inv.closed (hnext : n.next (.closed k) = some n') : n'.Inv := by
  obtain ⟨hdone, rfl⟩ := of_guard hnext
  refine { h with waited := fun k' hk' => h.waited k' (mem_filter.1 hk').1, finished := fun k' hk' => ?_ }
  rcases h.finished k' hk' with hcur | hwaited | hover
  · exact .inl hcur
  · by_cases heq : k' = k
    · subst heq
      exact .inr (.inr ⟨hdone.2.1, all_eq_true.1 hdone.2.2⟩)
    · exact .inr (.inl (mem_filter.2 ⟨hwaited, by simpa using heq⟩))
  · exact .inr (.inr hover)

theorem Inv.handleLoop (ranges : Ranges) {e : EventConnections} (down : Bool) (hk : k < n.created)
    (hup : (n.loops k).down = false) (hrest : rest ⊆ (n.loops k).queue)
    (hadds : rest.countP Delivery.adds = (n.loops k).adding) (he : ∀ initial, e ≠ .connAdd initial) :
    (n.setLoop k { n.loops k with
      queue := rest, controller := (n.loops k).controller.handle ranges e, down := down }).Inv := by
  have hover : ¬ (n.loops k).Over := fun hdone => Bool.false_ne_true (hup.symm.trans hdone.1)
  refine h.update hk rfl (fun hdone => absurd hdone hover) { (h.own k).handle ranges hrest he with }
    (fun _ _ _ hmem => .inl hmem) (fun hcur => ?_) fun _ _ => rfl
  have hcount : (n.loops k).connections = _ := h.counted _ k hcur
  rw [Counts, hcount, ← hadds]
  rfl

theorem Inv.serve (hnext : n.next (.serve ranges k) = some n') : n'.Inv := by
  simp only [next] at hnext
  split at hnext
  · next d rest hup hq =>
    cases hnext
    have hk : k < n.created := Nat.lt_of_not_le fun hle => by
      rw [(h.unborn k hle).1] at hq
      cases hq
    have hrest : rest ⊆ (n.loops k).queue := hq ▸ subset_cons_self d rest
    have hadds : (n.loops k).adding = (d :: rest).countP Delivery.adds := congrArg (List.countP Delivery.adds) hq
    obtain ⟨emitter, event⟩ := d
    cases event with
    | connAdd initial =>
      have hover : ¬ (n.loops k).Over := fun hdone => Bool.false_ne_true (hup.symm.trans hdone.1)
      refine h.update hk rfl (fun hdone => absurd hdone hover) ((h.own k).add ranges initial hrest)
        (fun _ _ _ hmem => .inl hmem) (fun hcur => ?_) fun _ _ => rfl
      have hcount : (n.loops k).connections = _ := h.counted _ k hcur
      rw [hadds, countP_cons_of_pos rfl] at hcount
      rw [Counts, hcount]
      simp only [live, adding, countP_append, countP_singleton, Bool.not_false, if_true]
      omega
    | connCloseStream i =>
      have hkept := h.handleLoop ranges (n.loops k).down hk hup hrest hadds.symm (e := .connCloseStream i) nofun
      unfold handled
      dsimp only
      split
      · exact hkept.enqueue nofun
      · exact hkept
    | shutdown => exact h.handleLoop ranges true hk hup hrest hadds.symm (e := .shutdown) nofun
    | _ => exact h.handleLoop ranges (n.loops k).down hk hup hrest hadds.symm nofun
  · cases hnext

theorem Inv.timer {round : Option Nat} (hnext : n.next (.timer ranges k round) = some n') : n'.Inv := by
  obtain ⟨hrun, rfl⟩ := of_guard hnext
  refine h.handleLoop ranges (n.loops k).down hrun.1 hrun.2 (List.Subset.refl _) rfl ?_
  split <;> nofun

/-- A stream that runs is one of those of its controller, which waits for it. -/
theorem Inv.running_spec (hs : n.running id = some s) :
    id.controller < n.created ∧ (n.loops id.controller).streams[id.idx]? = some s ∧ ¬ (n.loops id.controller).Over := by
  obtain ⟨hget, hrun⟩ := Option.filter_eq_some_iff.1 hs
  refine ⟨Nat.lt_of_not_le fun hle => ?_, hget, fun hdone => ?_⟩
  · rw [(h.unborn _ hle).2] at hget
    cases hget
  · rw [hdone.2 s (mem_of_getElem? hget)] at hrun
    cases hrun

theorem Inv.emit {e : StreamEvent} (hs : n.running id = some s) (he : e ≠ .connCloseStream) :
    (n.enqueue (.stream id (n.loops id.controller).ns e)).Inv := by
  obtain ⟨hk, -, hlive⟩ := h.running_spec hs
  have hcloses : ∀ k, (EventNamespace.stream id (n.loops id.controller).ns e).closes k = false := by
    intro k
    cases e with
    | connCloseStream => exact absurd rfl he
    | _ => rfl
  have hcount : ∀ k, (n.enqueue (.stream id (n.loops id.controller).ns e)).queue.countP (EventNamespace.closes k) =
      n.queue.countP (EventNamespace.closes k) := by
    intro k
    simp [Namespaces.enqueue, hcloses k]
  have hsame : n.setLoop id.controller (n.loops id.controller) = n :=
    congrArg (fun loops => { n with loops := loops }) (update_eq_self id.controller n.loops)
  have hnew := h.update hk rfl (fun hdone => hdone)
    (h.own _) (fun id' ns e' hmem => ?_) (fun hcur => ?_) fun k _ => hcount k
  · rw [hsame] at hnew
    exact hnew
  · rcases mem_append.1 hmem with hold | hnew
    · exact .inl hold
    · cases mem_singleton.1 hnew
      exact .inr ⟨rfl, rfl, hlive⟩
  · exact (h.counted _ _ hcur).trans (congrArg _ (hcount _).symm)

end

theorem live_close (s' : StreamStatus) (hs : l.streams[i]? = some s) (hopen : s.closed = false)
    (hclosed : s'.closed = true) : l.live = live { l with streams := l.streams.set i s' } + 1 := by
  obtain ⟨hi, rfl⟩ := List.getElem?_eq_some_iff.1 hs
  have hset : live { l with streams := l.streams.set i s' } = _ := countP_set hi
  have hpos : 0 < l.live := countP_pos_iff.2 ⟨_, getElem_mem hi, by simp [hopen]⟩
  simp only [hopen, hclosed, Bool.not_false, Bool.not_true, if_true, Bool.false_eq_true, if_false] at hset
  rw [hset]
  unfold live at hpos ⊢
  omega

theorem live_end (s' : StreamStatus) (hs : l.streams[i]? = some s) (hclosed : s.closed = true)
    (hclosed' : s'.closed = true) : l.live = live { l with streams := l.streams.set i s' } := by
  obtain ⟨hi, rfl⟩ := List.getElem?_eq_some_iff.1 hs
  have hset : live { l with streams := l.streams.set i s' } = _ := countP_set hi
  simp only [hclosed, hclosed'] at hset
  exact hset.symm

theorem Inv.closeStream (h : n.Inv) (hs : n.running id = some s) : (n.closeStream id s).Inv := by
  obtain ⟨hk, hget, hlive⟩ := h.running_spec hs
  unfold Namespaces.closeStream
  split
  · exact h
  · next hopen =>
    refine h.update hk rfl (fun hdone => absurd hdone hlive) ?_ (fun id' ns e hmem => ?_) (fun hcur => ?_)
      fun k hne => ?_
    · exact { h.own id.controller with numbered := (h.own _).numbered.trans length_set.symm }
    · rcases mem_append.1 hmem with hold | hnew
      · exact .inl hold
      · cases mem_singleton.1 hnew
        exact .inr ⟨rfl, rfl, hlive⟩
    · have hcount : (n.loops id.controller).connections = _ := h.counted _ _ hcur
      have hset := live_close { s with closed := true } hget (by simpa using hopen) rfl
      refine hcount.trans ?_
      rw [countP_append, countP_singleton, EventNamespace.closes, beq_self_eq_true, if_pos rfl]
      unfold adding setLoop
      dsimp only
      omega
    · simp [setLoop, EventNamespace.closes, Ne.symm hne]

theorem Inv.endStream (h : n.Inv) (hk : id.controller < n.created)
    (hget : (n.loops id.controller).streams[id.idx]? = some s) (hclosed : s.closed = true) : (n.endStream id).Inv := by
  refine h.update hk rfl (fun hdone => ⟨hdone.1, forall_mem_set hdone.2 rfl⟩) ?_ (fun _ _ _ he => .inl he)
    (fun hcur => ?_) fun _ _ => rfl
  · exact { h.own id.controller with numbered := (h.own _).numbered.trans length_set.symm }
  · have hcount : (n.loops id.controller).connections = _ := h.counted _ _ hcur
    refine hcount.trans ?_
    rw [live_end ⟨true, true⟩ hget hclosed rfl]
    rfl

theorem Inv.recvError (h : n.Inv) (hs : n.running id = some s) : ((n.closeStream id s).endStream id).Inv := by
  obtain ⟨hk, hget, -⟩ := h.running_spec hs
  have hreported : ∃ s', ((n.closeStream id s).loops id.controller).streams[id.idx]? = some s' ∧ s'.closed = true := by
    unfold Namespaces.closeStream
    split
    · next hclosed => exact ⟨s, hget, hclosed⟩
    · refine ⟨{ s with closed := true }, ?_, rfl⟩
      simp only [Namespaces.enqueue, setLoop, update_self]
      exact getElem?_set_self (List.getElem?_eq_some_iff.1 hget).1
  have hcreated : (n.closeStream id s).created = n.created := by
    unfold Namespaces.closeStream
    split <;> rfl
  obtain ⟨s', hget', hclosed⟩ := hreported
  exact (h.closeStream hs).endStream (hcreated ▸ hk) hget' hclosed

/-! ## Runs -/

theorem Inv.next {a : Action} (h : n.Inv) (hfresh : n.Fresh a) (hnext : n.next a = some n') : n'.Inv := by
  cases a with
  | connect | setLeader => cases hnext; exact h.enqueue nofun
  | dispatch => exact h.dispatch hfresh hnext
  | closed k => exact h.closed hnext
  | serve ranges k => exact h.serve hnext
  | timer ranges k round => exact h.timer hnext
  | report | ack =>
    obtain ⟨s, hs, rfl⟩ := Option.map_eq_some_iff.1 hnext
    exact h.emit hs nofun
  | sendError id =>
    obtain ⟨s, hs, rfl⟩ := Option.map_eq_some_iff.1 hnext
    exact h.closeStream hs
  | recvError id =>
    obtain ⟨s, hs, rfl⟩ := Option.map_eq_some_iff.1 hnext
    exact h.recvError hs

/-- What a stream tells reaches its controller and changes that stream there, each stream is counted until its end is
handled, and a controller without counted streams has no stream that is live. -/
structure Faithful (n : Namespaces) : Prop where
  routed : ∀ id ns e rest n', n.queue = .stream id ns e :: rest → n.next .dispatch = some n' →
    ∀ k, k ≠ id.controller → n'.loops k = n.loops k
  served : ∀ ranges k d rest id n', (n.loops k).queue = d :: rest → d.emitter = some id →
    n.next (.serve ranges k) = some n' →
      id.controller = k ∧ Connections.Only (· = id.idx) (n.loops k).controller (n'.loops k).controller ∧
      ∀ k', k' ≠ k → n'.loops k' = n.loops k'
  counted : ∀ ns k, n.namespaces.lookup ns = some k → Counts n.queue k (n.loops k)
  emptied : ∀ ns k rest n', n.queue = .connCloseNamespace ns :: rest → n.next .dispatch = some n' →
    n.namespaces.lookup ns = some k → k ∈ n'.closing →
      (n.loops k).adding = 0 ∧ (∀ s ∈ (n.loops k).streams, s.closed = true) ∧
      ∀ i ∈ (n.loops k).controller.streams, i < (n.loops k).streams.length

theorem handled_loops (k : Nat) (l : ConnectionsLoop) (e : EventConnections) :
    ((n.handled k l e).loops k).controller = l.controller ∧
      ∀ k', k' ≠ k → (n.handled k l e).loops k' = n.loops k' := by
  unfold handled
  split
  · exact ⟨by simp [setLoop], fun k' hne => update_of_ne hne _ _⟩
  · split
    · exact ⟨by simp [setLoop, Namespaces.enqueue], fun k' hne => update_of_ne hne _ _⟩
    · exact ⟨by simp [setLoop], fun k' hne => update_of_ne hne _ _⟩
  · exact ⟨by simp [setLoop], fun k' hne => update_of_ne hne _ _⟩
  · exact ⟨by simp [setLoop], fun k' hne => update_of_ne hne _ _⟩

theorem Inv.faithful (h : n.Inv) : n.Faithful where
  routed := by
    intro id ns e rest n' hq hnext k hne
    simp only [Namespaces.next, hq] at hnext
    split at hnext
    · next heq =>
      cases heq
      cases hnext
      simp only [handle, Namespaces.route]
      split
      · rfl
      · next k' hk' =>
        have hid := h.routed id ns e k' (hq ▸ mem_cons_self) hk'
        exact update_of_ne (hid ▸ hne) _ _
    · cases hnext
  served := by
    intro ranges k d rest id n' hq hd hnext
    simp only [Namespaces.next, hq] at hnext
    split at hnext
    · next heq =>
      cases heq
      cases hnext
      obtain ⟨hid, e, he⟩ := (h.own k).sent d (hq ▸ mem_cons_self) id hd
      obtain ⟨hself, hother⟩ := handled_loops k { n.loops k with
        queue := rest, controller := (n.loops k).controller.handle ranges d.event } d.event
      refine ⟨hid, ?_, hother⟩
      rw [hself, he]
      exact e.only id.idx ranges _
    · cases hnext
  counted := h.counted
  emptied := by
    intro ns k rest n' hq hnext hk hmem
    have hcount : (n.loops k).connections = (n.loops k).live + (n.loops k).adding + _ := h.counted ns k hk
    simp only [Namespaces.next, hq] at hnext
    split at hnext
    · next hidle heq =>
      cases heq
      cases hnext
      simp only [handle, Namespaces.handleCloseNamespace, hk] at hmem
      split at hmem
      · exact absurd (hidle ▸ hmem) not_mem_nil
      · next hzero =>
        have hlive : (n.loops k).live = 0 := by omega
        refine ⟨by omega, fun s hs => ?_, fun i hi => (h.own k).numbered ▸ (h.own k).registered i hi⟩
        simpa using countP_eq_zero.1 hlive s hs
    · cases hnext

/-- Events keep to their stream in every run where controllers take over namespaces without queued events of earlier
streams. -/
theorem events_keep_to_their_stream (coalesceWindow : Int)
    (h : Reachable (· = new coalesceWindow) (Steps Fresh Namespaces.next) n) : n.Faithful := by
  have hinv : n.Inv := by
    refine Reachable.invariant Inv ?_ ?_ h
    · rintro n rfl
      exact inv_new coalesceWindow
    · rintro n n' hn ⟨a, hfresh, hnext⟩
      exact hn.next hfresh hnext
  exact hinv.faithful

instance (n : Namespaces) : (a : Action) → Decidable (n.Fresh a)
  | .dispatch =>
    match hq : n.queue with
    | .connAdd ns initial :: rest =>
      decidable_of_iff (n.accepting = true → n.namespaces.lookup ns = none → ∀ e ∈ rest, e.ofStream ns = false)
        (by simp only [Fresh, hq])
    | [] | .setLeader _ :: _ | .stream _ _ _ :: _ | .connCloseNamespace _ :: _ => .isTrue (by simp only [Fresh, hq])
  | .connect _ _ | .setLeader _ | .closed _ | .serve _ _ | .timer _ _ _ | .report _ _ | .ack _ _ | .sendError _
  | .recvError _ => .isTrue trivial

/-- Two sidecars connect, and one of them ends its stream. -/
theorem events_keep_to_their_stream_closed :
    let acts : List Action := [.setLeader true, .connect "ns" ⟨"10.0.0.1:3500", "shop", ["cart"]⟩,
      .connect "ns" ⟨"10.0.0.2:3500", "web", ["page"]⟩, .dispatch, .dispatch, .dispatch, .serve .inOrder 0,
      .serve .inOrder 0, .recvError ⟨0, 0⟩, .dispatch]
    ∃ n, runFrom next (new 0) acts = some n ∧ (n.loops 0).connections = 1 ∧
      (n.loops 0).streams = [⟨true, true⟩, ⟨false, false⟩] ∧ n.Faithful := by
  intro acts
  have hrun : (runFrom (guarded Fresh next) (new 0) acts).map
      (fun n => ((n.loops 0).connections, (n.loops 0).streams)) = some (1, [⟨true, true⟩, ⟨false, false⟩]) := by
    decide +kernel
  obtain ⟨n, hn, heq⟩ := Option.map_eq_some_iff.1 hrun
  obtain ⟨hconnections, hstreams⟩ := Prod.mk.inj heq
  exact ⟨n, runFrom_of_guarded hn, hconnections, hstreams,
    events_keep_to_their_stream 0 (reachable_of_guarded (.start rfl) hn)⟩

/-- The scheduler takes the lead, loses it and takes it again; the end of the stream it had is queued after the second
sidecar that connects. -/
def flap : List Action :=
  [.setLeader true, .connect "ns" ⟨"10.0.0.1:3500", "shop", ["cart"]⟩, .dispatch, .dispatch, .serve .inOrder 0,
    .setLeader false, .setLeader true, .connect "ns" ⟨"10.0.0.2:3500", "web", ["page"]⟩, .dispatch, .serve .inOrder 0,
    .recvError ⟨0, 0⟩, .closed 0, .dispatch, .dispatch, .serve .inOrder 1]

/-- So with three streams, one of which ended before, and two sidecars that connect. -/
def flapOfThree : List Action :=
  [.setLeader true, .connect "ns" ⟨"10.0.0.1:3500", "shop", ["cart"]⟩, .connect "ns" ⟨"10.0.0.2:3500", "web", ["page"]⟩,
    .connect "ns" ⟨"10.0.0.3:3500", "web", ["page"]⟩, .dispatch, .dispatch, .dispatch, .dispatch,
    .serve .inOrder 0, .serve .inOrder 0, .serve .inOrder 0, .recvError ⟨0, 1⟩, .dispatch, .serve .inOrder 0,
    .setLeader false, .setLeader true, .connect "ns" ⟨"10.0.0.2:3500", "web", ["page"]⟩, .dispatch, .serve .inOrder 0,
    .recvError ⟨0, 0⟩, .connect "ns" ⟨"10.0.0.1:3500", "shop", ["cart"]⟩, .recvError ⟨0, 2⟩, .closed 0,
    .dispatch, .dispatch, .dispatch, .dispatch, .dispatch,
    .serve .inOrder 1, .serve .inOrder 1, .serve .inOrder 1, .serve .inOrder 1]

/-- The late end closes the stream that has the index now. Of the two new streams the second is live and registered when
its controller is shut down for being empty. -/
theorem late_close_of_earlier_stream :
    let second := fun n : Namespaces =>
      ((n.loops 1).connections, (n.loops 1).controller.streams, (n.loops 1).streams, n.closing)
    (runFrom next (new 0) flap).map second = some (1, [0], [⟨false, false⟩], []) ∧
    (runFrom next (new 0) (flap ++ [.dispatch, .serve .inOrder 1])).map second =
      some (0, [], [⟨false, false⟩], []) ∧
    (runFrom next (new 0) (flapOfThree ++ [.dispatch])).map second =
      some (0, [1], [⟨false, false⟩, ⟨false, false⟩], [1]) ∧
    ∃ n, runFrom next (new 0) flapOfThree = some n ∧ ¬ n.Faithful := by
  refine ⟨by decide +kernel, by decide +kernel, by decide +kernel, ?_⟩
  have hrun : (runFrom next (new 0) flapOfThree).map
      (fun n => (n.namespaces.lookup "ns", (n.loops 1).connections, (n.loops 1).live)) = some (some 1, 0, 2) := by
    decide +kernel
  obtain ⟨n, hn, heq⟩ := Option.map_eq_some_iff.1 hrun
  simp only [Prod.mk.injEq] at heq
  refine ⟨n, hn, fun hfaithful => ?_⟩
  have hcount : (n.loops 1).connections = _ := hfaithful.counted "ns" 1 heq.1
  omega

end Namespaces

end Dapr.SchedulerPlacement
