import WordMachine.Fault

/-!
# Devices

A device is what an engine's input and output instructions are attached to: a state, an answer to
each request for input, and a reaction to each value emitted. Scripts, channels, consoles and robots
are devices; so is anything that fails.
-/

namespace WordMachine

/-- A device's answer to a request for input. -/
inductive Reply where
  | value (value : Int)
  -- The stream on the named source has ended.
  | endOfStream (source : String)
  | fault (why : Fault)
  -- There is no answer yet.
  | wait
  deriving DecidableEq, Repr

/-- A kind of device with states in `σ`. -/
structure Device (σ : Type) where
  request : σ → Reply × σ
  -- Takes an emitted value, or refuses it.
  emit : Int → σ → Except Fault Unit × σ

end WordMachine
