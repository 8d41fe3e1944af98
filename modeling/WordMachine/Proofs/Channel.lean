import WordMachine.Channel

/-!
# The two ends of a channel

Inside a network a channel has one sender and one receiver, and nobody waits in it. The receiver
polls; the sender sends a value, closes the channel, or does both. `Channel.accept` is what the
sender does in one move, as data, and the two ends do not get in each other's way: what a receiver
finds is still there after the sender's move (`Channel.poll_accept_value`), and nothing is added
behind the end of a stream (`Channel.accept_of_ended`).
-/

namespace WordMachine

/-- What a sender does in one move. -/
structure Delivery where
  value? : Option Int := none
  final : Bool := false

namespace Channel

variable {c rest : Channel Empty} {v : Int} {δ : Delivery}

/-- Nobody waits in a channel without waiting receivers, so what is sent there is always buffered. -/
theorem send_of_open (h : c.closed = false) (v : Int) :
    c.send v = .ok ({ c with buffer := c.buffer ++ [v] }, none) := by
  rcases c with ⟨name, buffer, waiting, closed⟩
  cases waiting with
  | nil => simp_all [send]
  | cons ticket waiting => exact ticket.elim

theorem send_of_closed (h : c.closed = true) (v : Int) :
    c.send v = .error (.channelClosed c.name) := by
  simp [send, h]

theorem fst_close (c : Channel Empty) : c.close.1 = { c with closed := true } := by
  rcases c with ⟨name, buffer, waiting, closed⟩
  cases waiting with
  | nil => cases closed <;> rfl
  | cons ticket waiting => exact ticket.elim

/-- The channel after a sender's move. A closed channel takes no value. -/
def accept (c : Channel Empty) (δ : Delivery) : Channel Empty :=
  { c with
    buffer := c.buffer ++ if c.closed then [] else δ.value?.toList
    closed := c.closed || δ.final }

/-- A closed channel is never opened again. -/
@[simp] theorem closed_accept (c : Channel Empty) (δ : Delivery) :
    (c.accept δ).closed = (c.closed || δ.final) := rfl

theorem accept_nothing (c : Channel Empty) : c.accept {} = c := by
  rcases c with ⟨name, buffer, waiting, closed⟩
  cases closed <;> simp [accept]

theorem accept_final (c : Channel Empty) : c.accept { final := true } = c.close.1 := by
  rw [fst_close]
  rcases c with ⟨name, buffer, waiting, closed⟩
  cases closed <;> simp [accept]

/-- What is sent is in the channel, if nobody sends a value on a closed channel. -/
theorem buffer_accept (hopen : c.closed = true → δ.value? = none) :
    (c.accept δ).buffer = c.buffer ++ δ.value?.toList := by
  cases hclosed : c.closed with
  | false => simp [accept, hclosed]
  | true => simp [accept, hclosed, hopen hclosed]

/-- What is sent too late is lost. -/
theorem accept_value_of_closed (h : c.closed = true) (v : Int) : c.accept { value? := some v } = c := by
  rcases c with ⟨name, buffer, waiting, closed⟩
  cases h
  simp [accept]

/-- A sender that does not close an open channel only adds to it. -/
theorem accept_unclosed (hopen : c.closed = false) (δ : Delivery) :
    c.accept { δ with final := false } = { c with buffer := c.buffer ++ δ.value?.toList } := by
  simp [accept, hopen]

/-! ## What a receiver finds -/

theorem poll_eq_value_iff :
    c.poll = .value v rest ↔ ∃ later, c.buffer = v :: later ∧ rest = { c with buffer := later } := by
  rcases c with ⟨name, buffer, waiting, closed⟩
  cases buffer with
  | nil => cases closed <;> simp [poll]
  | cons w buffer =>
      constructor
      · intro h
        simp only [poll, Poll.value.injEq] at h
        rcases h with ⟨rfl, rfl⟩
        exact ⟨buffer, rfl, rfl⟩
      · rintro ⟨later, hbuffer, rfl⟩
        cases hbuffer
        rfl

theorem poll_eq_ended_iff : c.poll = .ended ↔ c.buffer = [] ∧ c.closed = true := by
  rcases c with ⟨name, buffer, waiting, closed⟩
  cases buffer <;> cases closed <;> simp [poll]

/-- A receiver has to wait only on a channel that is both empty and open. This is when an engine is
stuck on its inlet. -/
theorem poll_eq_empty_iff : c.poll = .empty ↔ c.buffer = [] ∧ c.closed = false := by
  rcases c with ⟨name, buffer, waiting, closed⟩
  cases buffer <;> cases closed <;> simp [poll]

/-- A value at hand is still at hand after the sender's move. -/
theorem poll_accept_value (h : c.poll = .value v rest) (δ : Delivery) :
    (c.accept δ).poll = .value v (rest.accept δ) := by
  rcases poll_eq_value_iff.mp h with ⟨later, hbuffer, rfl⟩
  simp [poll, accept, hbuffer]

/-- Behind the end of a stream the sender can do nothing any more. -/
theorem accept_of_ended (h : c.poll = .ended) (δ : Delivery) : c.accept δ = c := by
  rcases poll_eq_ended_iff.mp h with ⟨-, hclosed⟩
  rcases c with ⟨name, buffer, waiting, closed⟩
  simp_all [accept]

/-- Receiving a value leaves everything but the buffer alone. -/
theorem closed_of_poll_value (h : c.poll = .value v rest) : rest.closed = c.closed := by
  rcases poll_eq_value_iff.mp h with ⟨later, -, rfl⟩
  rfl

theorem name_of_poll_value (h : c.poll = .value v rest) : rest.name = c.name := by
  rcases poll_eq_value_iff.mp h with ⟨later, -, rfl⟩
  rfl

end Channel

end WordMachine
