import WordMachine.Log.Line
import WordMachine.Number.Decimal
import WordMachine.Text.Reserved

/-!
# Errors in the log

A fault is an error, and so are named values with a text called `message` among them. Where a record
tells what went wrong, an error is told as named values: its kind, its message with what its causes
say behind it, its trace, the errors it sums up, and whatever else it carries. An error among the
values it carries is told in the same way; everything that is no error stays as it is.
-/

namespace WordMachine.Log

/-- What a fault carries beside its kind and its message, as values made of numbers and texts. -/
def details {α : Type} (number : Int → α) (text : String → α) (why : Fault) :
    List (String × α) :=
  (why.code?.map fun code => ("code", text code)).toList ++
    (match why.site? with
      | some (pc, opcode) => [("pc", number pc), ("opcode", number opcode)]
      | none => []) ++
    (why.address?.map fun address => ("address", number address)).toList

def Value.message? : Value → Option String
  | .fields named =>
    match named.lookup "message" with
    | some (.text message) => some message
    | _ => none
  | .fault why => some why.message
  | _ => none

/-- Whether a value says nothing: nothing, falsity, zero or the empty text. -/
def Value.isBlank : Value → Bool
  | .null | .bool false | .text "" => true
  | .number value => value.isZero
  | _ => false

def ownTrace (named : List (String × Value)) : Value :=
  ((named.lookup "stack").filter fun trace => !trace.isBlank).getD (.text "")

mutual

/-- An error and its causes, each with what it says itself and its own trace. A value that is no
error has nothing to say. -/
def Value.chain : Value → List (String × Value)
  | .fields named =>
    match Value.message? (.fields named) with
    | some message => (message, ownTrace named) :: causeChain named
    | none => []
  -- A fault leaves no trace.
  | .fault why => [(why.message, .text "")]
  | _ => []

def causeChain : List (String × Value) → List (String × Value)
  | [] => []
  | (name, value) :: rest => if name = "cause" then value.chain else causeChain rest

end

mutual

/-- A value as a part of a text. Named values have no such form if one of them takes the place of
`toString`. -/
def Value.inText? : Value → Option String
  | .null => some "null"
  | .bool value => some (if value then "true" else "false")
  | .number value => some value.text
  | .text value => some value
  | .list values => (allInText? values).map (",".intercalate ·)
  | .fields named => if (named.lookup "toString").isSome then none else some "[object Object]"
  | .fault why =>
    some (if why.message = "" then why.kind else why.kind ++ ": " ++ why.message)

/-- Values in a list as parts of a text. Nothing leaves an empty place there. -/
def allInText? : List Value → Option (List String)
  | [] => some []
  | .null :: rest => (allInText? rest).map ("" :: ·)
  | value :: rest => do return (← value.inText?) :: (← allInText? rest)

end

/-- Traces one behind the other. A single one stays what it is. -/
def joined? : List Value → Option Value
  | [trace] => some trace
  | traces =>
    (traces.mapM Value.inText?).map fun texts => .text ("\ncaused by: ".intercalate texts)

/-- The kind of error that named values are. A value called `constructor` hides it, and what they
themselves give as a name takes its place. -/
def ownKind? (named : List (String × Value)) : Option Value :=
  if (named.lookup "constructor").isSome then named.lookup "name" else some (.text "Object")

/-- Whether an error that is told with the given values may be told with one more of the given name.
`raw` is kept for the error itself. -/
def isFree (told : List (String × Value)) (name : String) : Bool :=
  (told.lookup name).isNone && name ≠ "raw" && !Text.isReserved name

/-- What every error is told by: its kind, its message with what its causes say behind it, its
trace with theirs, and the errors it sums up. -/
def heading (kind? : Option Value) (chain : List (String × Value)) (trace : Value)
    (errors? : Option (List Value)) : List (String × Value) :=
  (kind?.map fun kind => ("type", kind)).toList ++
    [("message", .text (": ".intercalate (chain.map Prod.fst))), ("stack", trace)] ++
    (errors?.map fun errors => ("aggregateErrors", .list errors)).toList

mutual

/-- A value as it is told where something went wrong. It cannot be told if a trace in it has no form
in a text that needs one. -/
def Value.told? : Value → Option Value
  | .fields named =>
    match Value.chain (.fields named) with
    | [] => some (.fields named)
    | chain => do
      let trace ← joined? (chain.map Prod.snd)
      let first := heading (ownKind? named) chain trace (← toldErrors? named)
      return .fields (first ++ (← toldRest? first named))
  | .fault why =>
    some (.fields (heading (some (.text why.kind)) (Value.chain (.fault why)) (.text "") none ++
      details (.number ∘ .ofInt) .text why))
  | value => some value

def toldAll? : List Value → Option (List Value)
  | [] => some []
  | value :: rest => do return (← value.told?) :: (← toldAll? rest)

/-- What an error carries beside what it is told by first, as it is told. The cause has been told in
the message. -/
def toldRest? (first : List (String × Value)) :
    List (String × Value) → Option (List (String × Value))
  | [] => some []
  | (name, value) :: rest =>
    if !isFree first name || (name = "cause" && value.message?.isSome) then toldRest? first rest
    else do return (name, ← value.told?) :: (← toldRest? first rest)

/-- The list called `errors` among named values, each value as it is told. -/
def toldErrors? : List (String × Value) → Option (Option (List Value))
  | [] => some none
  | (name, .list values) :: rest =>
    if name = "errors" then (toldAll? values).map some else toldErrors? rest
  | (name, _) :: rest => if name = "errors" then some none else toldErrors? rest

end

end WordMachine.Log
