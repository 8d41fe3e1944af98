import WordMachine.Proofs.Network.Diamond

/-!
# Who closes which channel

Each channel of a network is closed by the one process that sends on it, and when that process is
through: the channel behind an engine when the engine has stopped, the channel into the first engine
at once in a chain and together with the observer in a ring. `Network.Wired` says so for all channels
of a network, and every move keeps it.
-/

namespace WordMachine

namespace Row

variable {row row' : Row} {c : Channel Empty} {v : Int} {i : Nat}

/-- The channel behind each engine is closed exactly if the engine has stopped. -/
def Wired : Row → Prop
  | outlet _ => True
  | stage _ e rest => rest.first.closed = e.status.stop?.isSome ∧ rest.Wired

/-- A delivery closes a channel only when its sender stops. -/
theorem Wired.accept (δ : Delivery) : row.Wired → (row.accept δ).Wired := by
  intro h
  cases row with
  | outlet c => trivial
  | stage inlet e rest => exact h

/-- Receiving takes a value away and closes nothing. -/
theorem Wired.withLast : row.Wired → row.last.poll = .value v c → (row.withLast c).Wired := by
  intro h hpoll
  induction row with
  | outlet d => trivial
  | stage inlet e rest ih =>
      rcases h with ⟨hclosed, hrest⟩
      have hlast : rest.last.poll = .value v c := hpoll
      have hfirst : (rest.withLast c).first.closed = rest.first.closed := (first_withLast hlast).1
      exact ⟨hfirst.trans hclosed, ih hrest hlast⟩

/-- The step lemma of a row, along the place of the engine that moves. -/
theorem Wired.of_moves : row.Wired → Moves i row row' → row'.Wired := by
  intro h hmoves
  induction hmoves with
  | @here e e' inlet inlet' rest δ passes =>
      rcases h with ⟨hclosed, hrest⟩
      have hopen : rest.first.closed = false := by simpa [passes.going] using hclosed
      refine ⟨?_, hrest.accept δ⟩
      simpa [hopen] using passes.final_eq
  | behind moves ih =>
      rcases h with ⟨hclosed, hrest⟩
      exact ⟨moves.first_eq.1.trans hclosed, ih hrest⟩

end Row

namespace Network

variable {n n' : Network} {p : Process} {order : List Process} {wiring : Wiring}
  {images : List Image} {phases : List Int}

/-- The channels that are closed are those whose senders are through. -/
structure Wired (n : Network) : Prop where
  row : n.row.Wired
  first : n.row.first.closed = (!n.feedback || !n.observing)
  last : n.observing = false → n.row.last.poll = .ended

/-- The step lemma of a network. -/
theorem Wired.of_moves : n.Wired → n.Moves p n' → n'.Wired := by
  intro h hmoves
  cases hmoves with
  | engine moves =>
      refine ⟨h.row.of_moves moves, moves.first_eq.1.trans h.first, ?_⟩
      intro hobserving
      exact moves.last_of_ended (h.last hobserving)
  | receive observing poll =>
      refine ⟨(h.row.withLast poll).accept _, ?_, ?_⟩
      · have hfirst := (Row.first_withLast poll).1.trans h.first
        simpa [echo] using hfirst
      · intro hfinished
        have hobserving : n.observing = false := hfinished
        rw [observing] at hobserving
        cases hobserving
  | ended observing poll =>
      refine ⟨h.row.accept _, by simp, ?_⟩
      intro _
      exact Row.last_accept_of_ended _ poll

/-- Whether the network is a ring never changes. -/
theorem Moves.feedback_eq : n.Moves p n' → n'.feedback = n.feedback := by
  intro h
  cases h <;> rfl

theorem feedback_of_follow : n.follow order = some n' → n'.feedback = n.feedback :=
  follow_invariant (fun m => m.feedback = n.feedback)
    (fun _ _ _ hsame hmoves => hmoves.feedback_eq.trans hsame) rfl

theorem wired_startFrom (wiring : Wiring) (place : Nat) (programs : List (Image × Int)) :
    (startFrom wiring place programs).Wired := by
  induction programs generalizing place with
  | nil => trivial
  | cons program programs ih =>
      refine ⟨?_, ih (place + 1)⟩
      cases programs <;> rfl

/-- At the start the channels are as they should be, if there is an engine at all. -/
theorem wired_start (hphases : phases ≠ []) (hlength : images.length = phases.length) :
    (start wiring images phases).Wired := by
  refine ⟨wired_startFrom wiring 0 _, ?_, ?_⟩
  · cases phases with
    | nil => exact absurd rfl hphases
    | cons phase phases =>
        cases images with
        | nil => cases hlength
        | cons image images => simp [start, startFrom, Row.first, inlet]
  · intro hfinished
    cases hfinished

/-- The run lemma: in every reachable network, the channels are closed whose senders are through. -/
theorem wired_of_follow (hphases : phases ≠ []) (hlength : images.length = phases.length) :
    (start wiring images phases).follow order = some n → n.Wired :=
  follow_invariant Wired (fun _ _ _ hwired hmoves => hwired.of_moves hmoves)
    (wired_start hphases hlength)

end Network

end WordMachine
