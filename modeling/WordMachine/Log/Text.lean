import WordMachine.Log.Logger
import WordMachine.Text.Quoted

/-!
# Records as text

A record is written on one line as an object with its level's number, what went wrong, the values
beside the message, and the message.
-/

namespace WordMachine.Log

/-- Members of an object, given as names with written values. -/
def object (members : List (String × String)) : String :=
  "\x7b" ++ ",".intercalate (members.map fun (name, value) => Text.quoted name ++ ":" ++ value) ++
    "\x7d"

def array (values : List String) : String :=
  "[" ++ ",".intercalate values ++ "]"

/-- A number as it is written. Nothing stands for what is beyond every finite number. -/
def writtenNumber : Number → String
  | .infinite _ => "null"
  | value => value.text

mutual

/-- A value as it is written. A fault among other values is written without its wording. -/
def Value.written : Value → String
  | .null => "null"
  | .bool value => if value then "true" else "false"
  | .number value => writtenNumber value
  | .text value => Text.quoted value
  | .list values => array (writtenAll values)
  | .fields named => object (writtenMembers named)
  | .fault why => object (details (writtenNumber ∘ .ofInt) Text.quoted why)

def writtenAll : List Value → List String
  | [] => []
  | value :: rest => value.written :: writtenAll rest

def writtenMembers : List (String × Value) → List (String × String)
  | [] => []
  | (name, value) :: rest => (name, value.written) :: writtenMembers rest

end

def Record.text (r : Record) : String :=
  object ([("level", toString r.level.rank)] ++
    (r.error.map fun error => ("err", error.written)).toList ++
    (r.values.map fun values => ("args", array (writtenAll values))).toList ++
    (r.message.map fun message => ("msg", message.written)).toList)

end WordMachine.Log
