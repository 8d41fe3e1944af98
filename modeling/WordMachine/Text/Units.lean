import WordMachine.Text.Utf8

/-!
# Text in UTF-16

Some lengths are counted, and some orders are told, by the units that UTF-16 writes a text with: one
for a character whose number has sixteen bits, two for any other.
-/

namespace WordMachine.Text

def charUnits (c : Char) : List Nat :=
  let n := c.toNat
  if n < 0x10000 then [n] else [0xD800 + (n - 0x10000) / 0x400, 0xDC00 + (n - 0x10000) % 0x400]

def units (text : String) : List Nat :=
  text.toList.flatMap charUnits

/-- Whether a text comes before another one, or is the same, in the order of their units. -/
def unitsLe (a b : String) : Bool :=
  !(units b).lex (units a) Nat.blt

/-- Units cut to a number of them, with dots in place of what is missing. The cut may go through a
character. -/
def cut (limit : Nat) (us : List Nat) : List Nat :=
  if us.length ≤ limit then us else us.take limit ++ units "..."

def isFirstHalf (unit : Nat) : Bool :=
  0xD800 ≤ unit && unit < 0xDC00

def isSecondHalf (unit : Nat) : Bool :=
  0xDC00 ≤ unit && unit < 0xE000

/-- The characters that units write. A half on its own counts as a replacement character. -/
def charsOfUnits : List Nat → List Char
  | [] => []
  | [unit] => [single unit]
  | first :: second :: rest =>
    if isFirstHalf first && isSecondHalf second then
      Char.ofNat (0x10000 + (first - 0xD800) * 0x400 + (second - 0xDC00)) :: charsOfUnits rest
    else single first :: charsOfUnits (second :: rest)
where
  /-- The character that a unit writes alone. -/
  single (unit : Nat) : Char :=
    if isFirstHalf unit || isSecondHalf unit then replacement else Char.ofNat unit

def ofUnits (us : List Nat) : String :=
  String.ofList (charsOfUnits us)

end WordMachine.Text
