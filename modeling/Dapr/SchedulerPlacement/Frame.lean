import Dapr.SchedulerPlacement.Namespaces
import Dapr.SchedulerPlacement.Rounds
/-!
# What a controller touches

An event that names a stream changes what the controller keeps of that stream, and starts or
advances rounds; no other stream is registered, removed or taken out of a round by it.
-/

namespace Dapr.SchedulerPlacement

namespace Connections

/-- No stream is registered anew. The registration of some streams changes only, and their membership of the rounds
there were. -/
structure Only (S : Nat → Prop) (c c' : Connections) : Prop where
  streamIDx : c'.streamIDx = c.streamIDx
  registered : ∀ j ∈ c'.streams, j ∈ c.streams
  streams : ∀ j, ¬ S j → j ∈ c.streams → j ∈ c'.streams
  hosts : ∀ j, ¬ S j → c'.store.hosts.lookup j = c.store.hosts.lookup j
  seq : c.seq ≤ c'.seq
  members : ∀ r' ∈ c'.rounds, r'.seq ≤ c.seq → ∃ r ∈ c.rounds, r.seq = r'.seq ∧
    ∀ j, ¬ S j → (j ∈ r'.members ↔ j ∈ r.members)

variable {S : Nat → Prop} {c c' c'' : Connections}

/-- The streams, their hosts and the members of the rounds stay. -/
theorem Only.of_eq (hidx : c'.streamIDx = c.streamIDx) (hstreams : c'.streams = c.streams)
    (hstore : c'.store = c.store) (hseq : c.seq ≤ c'.seq) (hrounds : ∀ r' ∈ c'.rounds, r'.seq ≤ c.seq → r' ∈ c.rounds) :
    Only S c c' where
  streamIDx := hidx
  registered := fun _ hj => hstreams ▸ hj
  streams := fun _ _ hj => hstreams ▸ hj
  hosts := fun _ _ => by rw [hstore]
  seq := hseq
  members := fun r' hr' hle => ⟨r', hrounds r' hr' hle, rfl, fun _ _ => Iff.rfl⟩

theorem Only.refl (c : Connections) : Only S c c := .of_eq rfl rfl rfl le_rfl fun _ hr _ => hr

theorem Only.trans (h : Only S c c') (h' : Only S c' c'') : Only S c c'' where
  streamIDx := h'.streamIDx.trans h.streamIDx
  registered := fun j hj => h.registered j (h'.registered j hj)
  streams := fun j hS hj => h'.streams j hS (h.streams j hS hj)
  hosts := fun j hS => (h'.hosts j hS).trans (h.hosts j hS)
  seq := h.seq.trans h'.seq
  members := by
    intro r'' hr'' hle
    obtain ⟨r', hr', hseq', hmem'⟩ := h'.members r'' hr'' (hle.trans h.seq)
    obtain ⟨r, hr, hseq, hmem⟩ := h.members r' hr' (hseq' ▸ hle)
    exact ⟨r, hr, hseq.trans hseq', fun j hS => (hmem' j hS).trans (hmem j hS)⟩

theorem Only.mono {T : Nat → Prop} (h : Only S c c') (hsub : ∀ j, S j → T j) : Only T c c' where
  streamIDx := h.streamIDx
  registered := h.registered
  streams := fun j hT => h.streams j fun hS => hT (hsub j hS)
  hosts := fun j hT => h.hosts j fun hS => hT (hsub j hS)
  seq := h.seq
  members := fun r' hr' hle =>
    have ⟨r, hr, hseq, hmem⟩ := h.members r' hr' hle
    ⟨r, hr, hseq, fun j hT => hmem j fun hS => hT (hsub j hS)⟩

theorem only_startRound (c : Connections) (types : List String) : Only S c (c.startRound types) := by
  refine .of_eq rfl rfl rfl (Nat.le_succ _) fun r' hr' hle => ?_
  rcases List.mem_cons.1 hr' with rfl | hold
  · exact absurd hle (Nat.not_succ_le_self _)
  · exact hold

theorem only_maybeDisseminate (c : Connections) : Only S c c.maybeDisseminate := by
  unfold maybeDisseminate
  split
  · exact .refl c
  · split
    · exact { Only.refl c with }
    · dsimp only
      split
      · exact .refl c
      · exact only_startRound c _

theorem only_release (c : Connections) (r : Round) : Only S c (c.release r) :=
  .of_eq rfl rfl rfl le_rfl fun _ hr' _ => (List.mem_filter.1 hr').1

theorem only_completeRound (c : Connections) (r : Round) : Only S c (c.completeRound r) := by
  unfold completeRound
  dsimp only
  split
  · unfold startCoalesceTimer
    split
    · exact only_release c r
    · exact { only_release c r with }
  · exact (only_release c r).trans (only_maybeDisseminate _)

theorem only_setRound {r : Round} (r' : Round) (hr : r ∈ c.rounds) (hseq : r.seq = r'.seq)
    (hmembers : r'.members = r.members) : Only S c (c.setRound r') := by
  refine { Only.refl c with members := fun r₀ hr₀ _ => ?_ }
  rcases mem_setRound hr₀ with ⟨hold, -⟩ | rfl
  · exact ⟨r₀, hold, rfl, fun _ _ => Iff.rfl⟩
  · exact ⟨r, hr, hseq, fun _ _ => by rw [hmembers]⟩

theorem only_advanceRound (ranges : Ranges) (c : Connections) (seq : Nat) : Only S c (c.advanceRound ranges seq) := by
  unfold advanceRound
  split
  · exact .refl c
  · next r hround =>
    have hr := (mem_of_round hround).1
    split
    · exact only_completeRound c r
    · split
      · exact .refl c
      · split
        · exact { only_setRound { r with phase := .update, acked := [] } hr rfl rfl with }
        · exact { only_setRound { r with phase := .unlock, acked := [] } hr rfl rfl with }
        · exact only_completeRound c r

theorem only_advanceRounds (ranges : Ranges) (c : Connections) (seqs : List Nat) :
    Only S c (c.advanceRounds ranges seqs) := by
  induction seqs generalizing c with
  | nil => exact .refl c
  | cons seq seqs ih => exact (only_advanceRound ranges c seq).trans (ih _)

theorem only_dropStream (i : Nat) (c : Connections) : Only (· = i) c (c.dropStream i) where
  streamIDx := rfl
  registered := fun _ hj => (List.mem_filter.1 hj).1
  streams := fun j hne hj => List.mem_filter.2 ⟨hj, by simpa using hne⟩
  hosts := fun _ hne => Store.lookup_delete_ne c.store hne
  seq := le_rfl
  members := by
    intro r' hr' _
    obtain ⟨r, hr, rfl⟩ := mem_dropStream hr'
    exact ⟨r, hr, rfl, fun j hne => by simp [Round.drop, hne]⟩

theorem only_removeStream (i : Nat) (c : Connections) : Only (· = i) c (c.removeStream i).1 := by
  unfold removeStream
  split
  · exact .refl c
  · dsimp only
    split
    · exact { only_dropStream i c with }
    · exact only_dropStream i c

theorem only_removeStreams (c : Connections) (gone : List Nat) : Only (· ∈ gone) c (c.removeStreams gone).1 := by
  induction gone generalizing c with
  | nil => exact .refl c
  | cons i gone ih =>
    exact ((only_removeStream i c).mono fun _ hj => hj ▸ List.mem_cons_self).trans
      ((ih _).mono fun _ hj => List.mem_cons_of_mem _ hj)

theorem only_handleCloseStream (i : Nat) (ranges : Ranges) (c : Connections) :
    Only (· = i) c (c.handleCloseStream ranges i) :=
  (only_removeStream i c).trans ((only_advanceRounds ranges _ _).trans (only_maybeDisseminate _))

theorem only_handleReportedTypes (i : Nat) (c : Connections) (host : ActorHost) :
    Only (· = i) c (c.handleReportedTypes i host) := by
  unfold handleReportedTypes
  split
  · exact .refl c
  · refine Only.trans ?_ (only_maybeDisseminate _)
    exact { Only.refl c with hosts := fun _ hne => Store.lookup_set_ne c.store host hne }

theorem only_handleAck (i : Nat) (ranges : Ranges) (c : Connections) (ack : Ack) :
    Only (· = i) c (c.handleAck ranges i ack) := by
  unfold handleAck
  split
  · exact .refl c
  · split
    · split
      · exact { Only.refl c with }
      · exact .refl c
    · split
      · exact .refl c
      · next r hround =>
        split
        · exact .refl c
        · split
          · exact .refl c
          · refine Only.trans ?_ (only_advanceRounds ranges _ _)
            exact only_setRound _ (mem_of_round hround).1 rfl rfl

theorem only_abortRound (c : Connections) (r : Round) : Only S c (c.abortRound r) := by
  unfold abortRound
  dsimp only
  split <;> exact { only_release c r with }

theorem only_handleTimeout (ranges : Ranges) (c : Connections) (seq : Nat) :
    ∃ gone : List Nat, Only (· ∈ gone) c (c.handleTimeout ranges seq) := by
  unfold handleTimeout
  split
  · exact ⟨[], .refl c⟩
  · next r _ =>
    exact ⟨_, (only_removeStreams c (r.members.filter fun i => i ∉ r.acked)).trans ((only_abortRound _ r).trans
      ((only_advanceRounds ranges _ _).trans (only_maybeDisseminate _)))⟩

theorem only_handleAdd (ranges : Ranges) (c : Connections) (initial : ActorHost) :
    Only (· = c.streamIDx) c.addStream (c.handleAdd ranges initial) := by
  unfold handleAdd
  dsimp only
  refine Only.trans ?_ (only_maybeDisseminate _)
  unfold sendSnapshot
  split
  · exact { Only.refl c.addStream with
      hosts := fun _ hne => Store.lookup_set_ne c.store initial hne }
  · exact { Only.refl c.addStream with
      hosts := fun _ hne => Store.lookup_set_ne c.store initial hne
      seq := Nat.le_succ _ }

theorem handle_registered (ranges : Ranges) (c : Connections) {e : EventConnections}
    (he : ∀ initial, e ≠ .connAdd initial) :
    (c.handle ranges e).streamIDx = c.streamIDx ∧ ∀ i ∈ (c.handle ranges e).streams, i ∈ c.streams := by
  have hkept : ∀ {S c'}, Only S c c' → c'.streamIDx = c.streamIDx ∧ ∀ i ∈ c'.streams, i ∈ c.streams :=
    fun honly => ⟨honly.streamIDx, honly.registered⟩
  cases e with
  | connAdd initial => exact absurd rfl (he initial)
  | reportedTypes i host => exact hkept (only_handleReportedTypes i c host)
  | ack i a => exact hkept (only_handleAck i ranges c a)
  | connCloseStream i => exact hkept (only_handleCloseStream i ranges c)
  | roundTimeout seq =>
    obtain ⟨gone, honly⟩ := only_handleTimeout ranges c seq
    exact hkept honly
  | coalesceFire =>
    have honly : Only (· ∈ []) { c with coalesceTimer := false } c.handleCoalesceFire := only_maybeDisseminate _
    exact ⟨honly.streamIDx, honly.registered⟩
  | shutdown => exact ⟨rfl, fun i hi => absurd hi List.not_mem_nil⟩

end Connections

theorem StreamEvent.only (e : StreamEvent) (i : Nat) (ranges : Ranges) (c : Connections) :
    Connections.Only (· = i) c (c.handle ranges (e.forController i)) := by
  cases e with
  | reportedTypes host => exact Connections.only_handleReportedTypes i c host
  | ack a => exact Connections.only_handleAck i ranges c a
  | connCloseStream => exact Connections.only_handleCloseStream i ranges c

end Dapr.SchedulerPlacement
