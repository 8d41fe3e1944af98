/-!
# Decimal numerals

An integer is written as an optional sign and one or more ASCII digits. Leading zeros are allowed
and `-0` is zero; nothing else may stand beside the digits.
-/

namespace WordMachine.Text

/-- The value of a non-empty run of ASCII digits. -/
def natural? (cs : List Char) : Option Nat :=
  if !cs.isEmpty && cs.all Char.isDigit then some (Nat.ofDigitChars 10 cs 0) else none

/-- The value of an optional sign followed by digits. -/
def integer? : List Char → Option Int
  | '-' :: digits => (natural? digits).map fun n => -(n : Int)
  | '+' :: digits => (natural? digits).map Int.ofNat
  | digits => (natural? digits).map Int.ofNat

/-- An integer in decimal, with a sign only when it is negative. -/
def ofInteger (value : Int) : String :=
  toString value

end WordMachine.Text
