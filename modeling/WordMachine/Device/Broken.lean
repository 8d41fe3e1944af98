import WordMachine.Device

/-!
# Broken devices

A device whose two directions may each fail in a way of their own, for an engine to prove itself on.
-/

namespace WordMachine

inductive Breakage where
  | none
  | failure
  | endOfStream
  deriving DecidableEq, Repr

structure Broken where
  input : Breakage
  output : Breakage
  -- What the failure says, and the name of the ended stream.
  message : String
  deriving Repr

namespace Broken

/-- The value of every request that works. -/
def constant : Int := 7

def request (b : Broken) : Reply × Broken :=
  (match b.input with
    | .none => .value constant
    | .failure => .fault (.device b.message)
    | .endOfStream => .endOfStream b.message, b)

/-- Drops a value or refuses it. The end of a stream is no reason to stop regularly here. -/
def emit (_ : Int) (b : Broken) : Except Fault Unit × Broken :=
  (match b.output with
    | .none => .ok ()
    | .failure => .error (.device b.message)
    | .endOfStream => .error (.endOfStream b.message), b)

def device : Device Broken :=
  { request, emit }

end Broken

end WordMachine
