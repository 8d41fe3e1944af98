import WordMachine.Fault
import WordMachine.Number

/-!
# Log lines

A log line has a level, a message and further values. Values are trees of plain data, in which a
fault may stand as it is.
-/

namespace WordMachine.Log

inductive Level where
  | debug | info | warn | error
  deriving DecidableEq, Repr

def Level.name : Level → String
  | .debug => "debug"
  | .info => "info"
  | .warn => "warn"
  | .error => "error"

inductive Value where
  | null
  | bool (value : Bool)
  | number (value : Number)
  | text (value : String)
  | list (values : List Value)
  | fields (fields : List (String × Value))
  | fault (why : Fault)

structure Line where
  level : Level
  message : String
  -- What it says it about.
  values : List Value := []

end WordMachine.Log
