import WordMachine.Device

/-!
# Scripts

A script supplies inputs from a fixed list and collects the outputs. Asking for more inputs than it
holds is a fault, and leaves it as it is.
-/

namespace WordMachine

structure Script where
  supplied : Nat
  remaining : List Int
  outputs : Array Int := #[]
  deriving Repr

namespace Script

def ofList (inputs : List Int) : Script :=
  { supplied := inputs.length, remaining := inputs }

def request (s : Script) : Reply × Script :=
  match s with
  | ⟨supplied, [], outputs⟩ => (.fault (.inputExhausted supplied), ⟨supplied, [], outputs⟩)
  | ⟨supplied, value :: remaining, outputs⟩ => (.value value, ⟨supplied, remaining, outputs⟩)

def emit (value : Int) (s : Script) : Except Fault Unit × Script :=
  (.ok (), { s with outputs := s.outputs.push value })

def lastOutput? (s : Script) : Option Int :=
  s.outputs.back?

def device : Device Script :=
  { request, emit }

end Script

end WordMachine
