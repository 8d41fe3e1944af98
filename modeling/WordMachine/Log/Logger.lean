import WordMachine.Log.Error
import WordMachine.Text.Reserved

/-!
# The logger

Until it is initialised the logger hands every line to the console, whatever the line's level. From
then on lines become records, those below the threshold are dropped, errors go to the standard error
stream and all others to standard output.

A reserved name passes for the name of a threshold, but no level reaches that threshold.
-/

namespace WordMachine.Log

/-- The least level that is not dropped. -/
inductive Threshold where
  | trace | debug | info | warn | error | fatal | silent
  -- What a reserved name stands for.
  | nameless
  deriving DecidableEq, Repr

namespace Threshold

def all : List Threshold :=
  [trace, debug, info, warn, error, fatal, silent]

def name? : Threshold → Option String
  | trace => some "trace"
  | debug => some "debug"
  | info => some "info"
  | warn => some "warn"
  | error => some "error"
  | fatal => some "fatal"
  | silent => some "silent"
  | nameless => none

def ofName? (name : String) : Option Threshold :=
  if Text.isReserved name then some nameless else all.find? fun t => t.name? = some name

/-- The number that levels are compared by; the last two are above every level. -/
def rank : Threshold → Nat
  | trace => 10
  | debug => 20
  | info => 30
  | warn => 40
  | error => 50
  | fatal => 60
  | silent | nameless => 100

def number : Threshold → Number
  | silent => .infinite false
  | t => .ofInt t.rank

def ofNumber? (number : Number) : Option Threshold :=
  all.find? fun t => t.number = number

end Threshold

inductive ThresholdRef where
  | named (name : String)
  | numbered (number : Number)
  deriving DecidableEq, Repr

def ThresholdRef.threshold? : ThresholdRef → Option Threshold
  | .named name => Threshold.ofName? name
  | .numbered number => Threshold.ofNumber? number

def Level.rank : Level → Nat
  | .debug => 20
  | .info => 30
  | .warn => 40
  | .error => 50

def Level.capitals (level : Level) : String :=
  level.name.map Char.toUpper

inductive Refusal where
  | badStart (name : String)
  | badThreshold (ref : ThresholdRef)
  -- What went wrong cannot be told.
  | untold
  deriving DecidableEq, Repr

def Refusal.message : Refusal → String
  | .badStart name => "default level:" ++ name ++ " must be included in custom levels"
  | .badThreshold (.named name) => "unknown level " ++ name
  | .badThreshold (.numbered number) => "unknown level value" ++ number.text
  | .untold => "Cannot convert object to primitive value"

def Refusal.kind : Refusal → String
  | .untold => "TypeError"
  | _ => "Error"

/-- What a value names a threshold by, if it names one. A value that says nothing names none. -/
def ThresholdRef.ofValue (value : Value) : Except Refusal (Option ThresholdRef) :=
  if value.isBlank then .ok none
  else
    match value, value.inText? with
    | .number number, _ => .ok (some (.numbered number))
    | _, some name => .ok (some (.named name))
    | _, none => .error .untold

/-- What is written for a line once the logger is initialised. -/
structure Record where
  level : Level
  -- What went wrong, as it is told, for an error that says so.
  error : Option Value := none
  -- The values beside the message. The logger's own line has no place for any.
  values : Option (List Value) := none
  message : Option Value

structure Logger where
  -- The least level that becomes a record.
  threshold : Threshold := .info
  -- Whether lines become records.
  initialized : Bool := false
  -- The lines handed to the console, oldest first.
  console : Array Line := #[]
  -- The records on standard output, oldest first.
  output : Array Record := #[]
  -- The records on the standard error stream, oldest first.
  errors : Array Record := #[]

namespace Logger

def create (name : String) : Except Refusal Logger :=
  if name = "" then .ok {}
  else
    match Threshold.ofName? name with
    | some threshold => .ok { threshold }
    | none => .error (.badStart name)

def admits (l : Logger) (level : Level) : Bool :=
  l.threshold.rank ≤ level.rank

/-- Writes a record unless it is below the threshold. -/
def write (l : Logger) (r : Record) : Logger :=
  if l.admits r.level then
    if r.level = .error then { l with errors := l.errors.push r }
    else { l with output := l.output.push r }
  else l

def greeting : Record :=
  { level := .debug, message := some (.text "LoggerProvider initialized") }

/-- Initialises the logger, with another threshold if the value names one. -/
def init (l : Logger) (value : Value) : Except Refusal Logger := do
  match ← ThresholdRef.ofValue value with
  | none => return { l with initialized := true }.write greeting
  | some ref =>
    match ref.threshold? with
    | some threshold => return { l with threshold, initialized := true }.write greeting
    | none => throw (.badThreshold ref)

/-- The record of a message with values. The first value beside an error says what went wrong; there
is no record if that cannot be told. -/
def record? (level : Level) (message : Option Value) (values : List Value) : Option Record :=
  -- Only errors set their first value apart.
  match level, values with
  | .error, error :: values =>
    error.told?.map fun error =>
      { level := .error, error := some error, values := some values, message }
  | level, values => some { level, values := some values, message }

/-- Logs a message, which is a text as a rule, with values. On the console every message stands as a
text. -/
def say (l : Logger) (level : Level) (message : Option Value) (values : List Value) :
    Except Refusal Logger :=
  if l.initialized then
    -- What is dropped need not be told.
    if l.admits level then
      match record? level message values with
      | some r => .ok (l.write r)
      | none => .error .untold
    else .ok l
  else
    match (message.map Value.inText?).getD (some "undefined") with
    | some message => .ok { l with console := l.console.push { level, message, values } }
    | none => .error .untold

def log (l : Logger) (line : Line) : Except Refusal Logger :=
  l.say line.level (some (.text line.message)) line.values

def logAll (l : Logger) (lines : List Line) : Logger :=
  lines.foldl (fun l line => (l.log line).toOption.getD l) l

def consoleText (time : String) (line : Line) : String :=
  "[" ++ time ++ "] [" ++ line.level.capitals ++ "] " ++ line.message

end Logger

end WordMachine.Log
