import WordMachine.Image
import WordMachine.Interval
import WordMachine.Robot

/-!
# Values of options

What may stand behind an option: a word, a list of words, a short range of words, or a colour.
-/

namespace WordMachine.CommandLine

inductive BadValue where
  | notWord (text : String)
  | notList (why : Image.Misread)
  | notRange (text : String)
  | emptyRange (text : String)
  | longRange (text : String)
  | unknownColor (text : String)
  deriving DecidableEq, Repr

/-- The most values a range may have. A search tries all their arrangements. -/
def maxRangeLength : Nat := 9

def BadValue.message : BadValue → String
  | .notWord text => "\"" ++ text ++ "\" is not a 64-bit integer"
  | .notList why => why.message
  | .notRange text => "\"" ++ text ++ "\" is not a range like 0..4"
  | .emptyRange text => "Range " ++ text ++ " is empty"
  | .longRange text =>
    "Range " ++ text ++ " has more than " ++ toString maxRangeLength ++ " values"
  | .unknownColor text => "Unknown panel color \"" ++ text ++ "\""

namespace Value

open Text (isBlank trim)

/-- A word, blanks around it aside. -/
def word (text : String) : Except BadValue Word :=
  (Word.read (trim text.toList)).mapError fun _ => .notWord text

/-- One or more words, separated as in a program. -/
def words (text : String) : Except BadValue (List Word) :=
  (Image.read text).mapError .notList

/-- The numeral that a text begins with, and the rest of the text. -/
def numeral? (cs : List Char) : Option (List Char × List Char) :=
  let (sign, rest) := match cs with
    | '+' :: rest => (['+'], rest)
    | '-' :: rest => (['-'], rest)
    | rest => ([], rest)
  match rest.takeWhile Char.isDigit with
  | [] => none
  | digits => some (sign ++ digits, rest.dropWhile Char.isDigit)

/-- The two numerals of a range: they stand around two dots, with blanks allowed at the ends and
around the dots. -/
def bounds? (cs : List Char) : Option (List Char × List Char) := do
  let (first, rest) ← numeral? (cs.dropWhile isBlank)
  let .cons '.' (.cons '.' rest) := rest.dropWhile isBlank | none
  let (last, rest) ← numeral? (rest.dropWhile isBlank)
  if rest.all isBlank then some (first, last) else none

/-- A range of words, both bounds included, if `list` lists the integers from one to another. Nothing is
listed before the length has been tested. -/
def rangeBy {m : Type → Type} [Applicative m] (list : Int → Int → m (List Int)) (text : String) :
    m (Except BadValue (List Word)) :=
  match bounds? text.toList with
  | none => pure (.error (.notRange text))
  | some (first, last) =>
    match word (String.ofList first), word (String.ofList last) with
    | .error why, _ => pure (.error why)
    | .ok _, .error why => pure (.error why)
    | .ok first, .ok last =>
      let first := first.toInt
      let last := last.toInt
      if last < first then pure (.error (.emptyRange text))
      else if (maxRangeLength : Int) ≤ last - first then pure (.error (.longRange text))
      else (fun values => .ok (values.map Word.ofInt)) <$> list first last

def range (text : String) : Except BadValue (List Word) :=
  Id.run (rangeBy (fun first last => pure (Interval.toList first last)) text)

/-- A letter without its case. The Kelvin sign is a capital k; no other character beyond ASCII is a
capital of an ASCII letter. -/
def lowerCase (c : Char) : Char :=
  if c = '\u212A' then 'k' else c.toLower

def color (text : String) : Except BadValue Color :=
  match String.ofList (text.toList.map lowerCase) with
  | "black" => .ok .black
  | "white" => .ok .white
  | _ => .error (.unknownColor text)

end Value

end WordMachine.CommandLine
