import WordMachine.Fault

/-!
# Channels

A channel carries integers from one sender to one receiver, in order and without a bound. A receiver
that finds nothing waits; a value that is sent goes to the longest waiting receiver, or else into
the buffer. Once the channel is closed and drained, receiving reports the end of the stream.

Waiting receivers are known by tickets of a type `ω`. With `ω := Empty` nobody ever waits inside the
channel: a receiver polls again later.
-/

namespace WordMachine

structure Channel (ω : Type) where
  name : String
  -- Values sent and not yet received, oldest first.
  buffer : List Int := []
  -- Tickets of the receivers that wait, longest waiting first.
  waiting : List ω := []
  closed : Bool := false
  deriving Repr

namespace Channel

variable {ω : Type}

def size (c : Channel ω) : Nat :=
  c.buffer.length

/-- Sends a value, and tells which waiting receiver takes it, if any does. -/
def send (c : Channel ω) (value : Int) : Except Fault (Channel ω × Option ω) :=
  if c.closed then .error (.channelClosed c.name)
  else
    match c.waiting with
    -- Someone waits only on an empty buffer, so the value overtakes nothing.
    | ticket :: waiting => .ok ({ c with waiting }, some ticket)
    | [] => .ok ({ c with buffer := c.buffer ++ [value] }, none)

inductive Poll (ω : Type) where
  -- The oldest value, and the channel without it.
  | value (value : Int) (rest : Channel ω)
  | ended
  | empty

/-- Looks for a value without waiting for one. -/
def poll (c : Channel ω) : Poll ω :=
  match c.buffer with
  | value :: buffer => .value value { c with buffer }
  | [] => if c.closed then .ended else .empty

/-- Receives a value or the end of the stream, or joins the waiting receivers. -/
def receive (c : Channel ω) (ticket : ω) : Channel ω × Option (Except Fault Int) :=
  match c.poll with
  | .value value rest => (rest, some (.ok value))
  | .ended => (c, some (.error (.endOfStream c.name)))
  | .empty => ({ c with waiting := c.waiting ++ [ticket] }, none)

def close (c : Channel ω) : Channel ω × List ω :=
  if c.closed then (c, [])
  else ({ c with closed := true, waiting := [] }, c.waiting)

def drained (c : Channel ω) : Channel ω :=
  { c with buffer := [] }

end Channel

end WordMachine
