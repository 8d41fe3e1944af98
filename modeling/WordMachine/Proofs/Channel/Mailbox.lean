import WordMachine.Proofs.Channel

/-!
# Channels with a receiver that waits

A `Mailbox` is a channel together with its one receiver, who waits in it when there is nothing to
receive and is given what it waits for by whoever sends or closes. `Mailbox.Holds` compares it with a
channel that is polled instead. Nothing that the sender or the receiver does tells the two apart: an
answer that the receiver has not taken yet is what the other channel still holds.
-/

namespace WordMachine

structure Mailbox where
  inbound : Channel Unit
  -- What the receive that is under way has come to.
  letter? : Option (Except Fault Int) := none

namespace Mailbox

/-- Asks for a value. It is taken later, also if there is one already. -/
def receive (b : Mailbox) : Mailbox :=
  let (inbound, letter?) := b.inbound.receive ()
  { inbound, letter? }

/-- Sends a value. If the receiver waits, the value goes straight to it. -/
def post (value : Int) (b : Mailbox) : Except Fault Unit × Mailbox :=
  match b.inbound.send value with
  | .ok (inbound, none) => (.ok (), { b with inbound })
  | .ok (inbound, some ()) => (.ok (), { inbound, letter? := some (.ok value) })
  | .error why => (.error why, b)

def send (b : Mailbox) (value : Int) : Mailbox :=
  (b.post value).2

/-- Closes the channel. If the receiver waits, it is told that the stream has ended. -/
def close (b : Mailbox) : Mailbox :=
  match b.inbound.close with
  | (inbound, []) => { b with inbound }
  | (inbound, _ :: _) => { inbound, letter? := some (.error (.endOfStream b.inbound.name)) }

def taken (b : Mailbox) : Mailbox :=
  { b with letter? := none }

def accept (b : Mailbox) (δ : Delivery) : Mailbox :=
  let b := δ.value?.elim b b.send
  if δ.final then b.close else b

variable {b : Mailbox} {c : Channel Empty} {asked : Bool} {v : Int}

@[simp] theorem closed_receive (b : Mailbox) : b.receive.inbound.closed = b.inbound.closed := by
  rcases b with ⟨⟨name, buffer, waiting, closed⟩, letter?⟩
  cases buffer <;> cases closed <;> rfl

@[simp] theorem closed_send (b : Mailbox) (v : Int) : (b.send v).inbound.closed = b.inbound.closed := by
  rcases b with ⟨⟨name, buffer, waiting, closed⟩, letter?⟩
  cases closed <;> cases waiting <;> rfl

@[simp] theorem closed_close (b : Mailbox) : b.close.inbound.closed = true := by
  rcases b with ⟨⟨name, buffer, waiting, closed⟩, letter?⟩
  cases closed <;> cases waiting <;> rfl

theorem name_receive (b : Mailbox) : b.receive.inbound.name = b.inbound.name := by
  rcases b with ⟨⟨name, buffer, waiting, closed⟩, letter?⟩
  cases buffer <;> cases closed <;> rfl

theorem name_send (b : Mailbox) (v : Int) : (b.send v).inbound.name = b.inbound.name := by
  rcases b with ⟨⟨name, buffer, waiting, closed⟩, letter?⟩
  cases closed <;> cases waiting <;> rfl

theorem name_close (b : Mailbox) : b.close.inbound.name = b.inbound.name := by
  rcases b with ⟨⟨name, buffer, waiting, closed⟩, letter?⟩
  cases closed <;> cases waiting <;> rfl

/-! ## What is still to be received -/

/-- How a mailbox stands to a channel that is polled, of which the flag tells whether the receiver has
asked. What the receiver has been given but not taken yet is still in the other channel. -/
inductive Holds (c : Channel Empty) (b : Mailbox) : Bool → Prop where
  | free (nobody : b.inbound.waiting = []) (left : c.buffer = b.inbound.buffer) : Holds c b false
  | waits (letter : b.letter? = none) (waiting : b.inbound.waiting = [()])
      (empty : b.inbound.buffer = []) (opened : b.inbound.closed = false) (left : c.buffer = []) :
      Holds c b true
  | given {v : Int} (letter : b.letter? = some (.ok v)) (nobody : b.inbound.waiting = [])
      (left : c.buffer = v :: b.inbound.buffer) : Holds c b true
  | told {source : String} (letter : b.letter? = some (.error (.endOfStream source)))
      (nobody : b.inbound.waiting = []) (empty : b.inbound.buffer = [])
      (closed : b.inbound.closed = true) (left : c.buffer = []) : Holds c b true

/-- Asking puts the polled channel's first value, or its end, aside for the receiver. -/
theorem Holds.receive (h : Holds c b false) : Holds c b.receive true := by
  rcases b with ⟨⟨name, buffer, waiting, closed⟩, letter?⟩
  cases h with
  | free nobody left =>
      cases nobody
      cases buffer with
      | cons v buffer => exact .given rfl rfl left
      | nil =>
          cases closed with
          | true => exact .told rfl rfl rfl rfl left
          | false => exact .waits rfl rfl rfl rfl left

/-- A value that is sent is left, whether it goes to the buffer or straight to the receiver. -/
theorem Holds.send (h : Holds c b asked) (hopen : b.inbound.closed = false)
    (hclosed : c.closed = b.inbound.closed) (v : Int) :
    Holds (c.accept { value? := some v }) (b.send v) asked := by
  have hbuffer : (c.accept { value? := some v }).buffer = c.buffer ++ [v] :=
    Channel.buffer_accept fun h => by
      rw [hclosed, hopen] at h
      cases h
  rcases b with ⟨⟨name, buffer, waiting, closed⟩, letter?⟩
  cases hopen
  cases h with
  | free nobody left =>
      cases nobody
      exact .free rfl (by rw [hbuffer, left]; rfl)
  | waits letter hwaiting empty opened left =>
      cases hwaiting
      cases empty
      exact .given rfl rfl (by rw [hbuffer, left]; rfl)
  | given letter nobody left =>
      cases nobody
      exact .given letter rfl (by rw [hbuffer, left]; rfl)
  | told letter nobody empty closed left => cases closed

/-- Closing adds nothing, and a receiver that waits is told. -/
theorem Holds.close (h : Holds c b asked) : Holds (c.accept { final := true }) b.close asked := by
  have hbuffer : (c.accept { final := true }).buffer = c.buffer := by
    rw [Channel.buffer_accept fun _ => rfl]
    exact List.append_nil _
  rcases b with ⟨⟨name, buffer, waiting, closed⟩, letter?⟩
  cases h with
  | free nobody left =>
      cases nobody
      cases closed <;> exact .free rfl (hbuffer.trans left)
  | waits letter hwaiting empty opened left =>
      cases hwaiting
      cases opened
      exact .told rfl rfl empty rfl (hbuffer.trans left)
  | given letter nobody left =>
      cases nobody
      cases closed <;> exact .given letter rfl (hbuffer.trans left)
  | told letter nobody empty hclosed left =>
      cases hclosed
      exact .told letter nobody empty rfl (hbuffer.trans left)

/-- What the receiver takes is what a poll of the other channel finds. -/
theorem Holds.take {letter : Except Fault Int} (h : Holds c b true)
    (hclosed : c.closed = b.inbound.closed) (hletter : b.letter? = some letter) :
    (∃ v rest, letter = .ok v ∧ c.poll = .value v rest ∧ Holds rest b.taken false) ∨
      ∃ source, letter = .error (.endOfStream source) ∧ c.poll = .ended ∧ Holds c b.taken false := by
  cases h with
  | waits unanswered => cases unanswered.symm.trans hletter
  | @given v given nobody left =>
      cases given.symm.trans hletter
      exact .inl ⟨v, { c with buffer := b.inbound.buffer }, rfl,
        Channel.poll_eq_value_iff.mpr ⟨_, left, rfl⟩, .free nobody rfl⟩
  | @told source told nobody empty closed left =>
      cases told.symm.trans hletter
      exact .inr ⟨source, rfl, Channel.poll_eq_ended_iff.mpr ⟨left, hclosed.trans closed⟩,
        .free nobody (left.trans empty.symm)⟩

/-- A receiver waits only where a poll finds nothing. -/
theorem Holds.poll_of_unanswered (h : Holds c b true) (hclosed : c.closed = b.inbound.closed)
    (hletter : b.letter? = none) : c.poll = .empty := by
  cases h with
  | waits letter waiting empty opened left =>
      exact Channel.poll_eq_empty_iff.mpr ⟨left, hclosed.trans opened⟩
  | given letter => cases letter.symm.trans hletter
  | told letter => cases letter.symm.trans hletter

/-! ## The whole channel -/

/-- A mailbox stands to a channel that is polled, and whoever sends cannot tell them apart either. -/
structure Shows (c : Channel Empty) (b : Mailbox) (asked : Bool) : Prop where
  name_eq : b.inbound.name = c.name
  closed_eq : b.inbound.closed = c.closed
  holds : Holds c b asked

theorem Shows.receive (h : Shows c b false) : Shows c b.receive true where
  name_eq := (name_receive b).trans h.name_eq
  closed_eq := (closed_receive b).trans h.closed_eq
  holds := h.holds.receive

/-- What is sent on a closed channel is refused. -/
theorem Shows.post_of_closed (h : Shows c b asked) (hclosed : c.closed = true) (v : Int) :
    b.post v = (.error (.channelClosed c.name), b) := by
  simp [post, Channel.send, h.closed_eq, hclosed, h.name_eq]

/-- An open channel accepts every value, whether somebody waits for it or not. -/
theorem Shows.post_of_open (h : Shows c b asked) (hopen : c.closed = false) (v : Int) :
    b.post v = (.ok (), b.send v) := by
  have hopen' : b.inbound.closed = false := h.closed_eq.trans hopen
  rcases b with ⟨⟨name, buffer, waiting, closed⟩, letter?⟩
  cases hopen'
  cases waiting <;> rfl

/-- A value sent to a waiting receiver is the value that polling would find next. -/
theorem Shows.send (h : Shows c b asked) (v : Int) :
    Shows (c.accept { value? := some v }) (b.send v) asked where
  name_eq := (name_send b v).trans h.name_eq
  closed_eq := by simp [h.closed_eq]
  holds := by
    cases hclosed : c.closed with
    | false => exact h.holds.send (h.closed_eq.trans hclosed) h.closed_eq.symm v
    | true =>
        rw [Channel.accept_value_of_closed hclosed, Mailbox.send, h.post_of_closed hclosed]
        exact h.holds

/-- A receiver who is woken by the close is one who would find the stream ended. -/
theorem Shows.close (h : Shows c b asked) : Shows (c.accept { final := true }) b.close asked where
  name_eq := (name_close b).trans h.name_eq
  closed_eq := by simp
  holds := h.holds.close

theorem Shows.accept (h : Shows c b asked) (δ : Delivery) : Shows (c.accept δ) (b.accept δ) asked := by
  rcases δ with ⟨_ | v, _ | _⟩
  · simpa [Mailbox.accept, Channel.accept_nothing] using h
  · exact h.close
  · exact h.send v
  · have hboth : c.accept { value? := some v, final := true } =
        (c.accept { value? := some v }).accept { final := true } := by
      simp [Channel.accept]
    rw [hboth]
    exact (h.send v).close

/-- Taking the answer is what polling comes to, at the very moment when polling would succeed. -/
theorem Shows.take {letter : Except Fault Int} (h : Shows c b true) (hletter : b.letter? = some letter) :
    (∃ v rest, letter = .ok v ∧ c.poll = .value v rest ∧ Shows rest b.taken false) ∨
      ∃ source, letter = .error (.endOfStream source) ∧ c.poll = .ended ∧ Shows c b.taken false := by
  rcases h.holds.take h.closed_eq.symm hletter with
    ⟨v, rest, rfl, hpoll, hrest⟩ | ⟨source, rfl, hpoll, hsame⟩
  · refine .inl ⟨v, rest, rfl, hpoll, ?_, ?_, hrest⟩
    · exact h.name_eq.trans (Channel.name_of_poll_value hpoll).symm
    · exact h.closed_eq.trans (Channel.closed_of_poll_value hpoll).symm
  · exact .inr ⟨source, rfl, hpoll, h.name_eq, h.closed_eq, hsame⟩

end Mailbox

end WordMachine
