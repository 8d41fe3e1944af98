import WordMachine.Channel
import WordMachine.Device

/-!
# Links

An engine between two channels: it receives its input from one and sends its output on the other.
-/

namespace WordMachine

/-- The channels before and behind an engine. -/
structure Link where
  inbound : Channel Empty
  outbound : Channel Empty
  deriving Repr

namespace Link

/-- Receives a value, unless there is none yet. -/
def request (l : Link) : Reply × Link :=
  match l.inbound.poll with
  | .value value inbound => (.value value, { l with inbound })
  | .ended => (.endOfStream l.inbound.name, l)
  | .empty => (.wait, l)

def emit (value : Int) (l : Link) : Except Fault Unit × Link :=
  match l.outbound.send value with
  | .ok (outbound, _) => (.ok (), { l with outbound })
  | .error why => (.error why, l)

def device : Device Link :=
  { request, emit }

end Link

end WordMachine
