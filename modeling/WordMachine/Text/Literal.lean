import WordMachine.Text.Quoted
import WordMachine.Text.Units

/-!
# Literals

A text is shown as a literal: between quotes that do not stand in it, if there are such, with a
backslash before every quote that does and before every backslash, and with control characters
written by a letter or by their number. A long text is shown line by line.
-/

namespace WordMachine.Text

/-- The quotes for a text, the first that will do: single ones, double ones, back quotes. If none
will, single ones. -/
def quoteFor (cs : List Char) : Char :=
  -- A dollar sign with a brace behind it means something between back quotes.
  let hasHole := (cs.zip (cs.drop 1)).contains ('$', '\x7b')
  if !cs.contains '\'' then '\''
  else if !cs.contains '"' then '"'
  else if !cs.contains '\x60' && !hasHole then '\x60'
  else '\''

def literalChar (quote : Char) : Char → List Char
  | '\n' => ['\\', 'n']
  | '\r' => ['\\', 'r']
  | '\t' => ['\\', 't']
  | '\x08' => ['\\', 'b']
  | '\x0C' => ['\\', 'f']
  | c =>
    let n := c.toNat
    if c == '\\' || c == quote then ['\\', c]
    else if n < 0x20 || (0x7F ≤ n && n < 0xA0) then
      ['\\', 'x', (hexDigit (n / 16)).toUpper, (hexDigit n).toUpper]
    else [c]

def literalLine (cs : List Char) : String :=
  let quote := quoteFor cs
  String.ofList (quote :: cs.flatMap (literalChar quote) ++ [quote])

/-- Splits behind every line feed, where `current` holds the unfinished piece backwards. -/
def pieces (current : List Char) : List Char → List (List Char)
  | [] => if current.isEmpty then [] else [current.reverse]
  | '\n' :: rest => ('\n' :: current).reverse :: pieces [] rest
  | c :: rest => pieces (c :: current) rest

/-- Longer texts are shown line by line. -/
def literalWidth : Nat := 76

/-- Nothing behind so many units is shown. -/
def literalLimit : Nat := 10000

/-- A text as a literal, as far as it is shown. -/
def literal (text : String) : String :=
  let us := units text
  let shown := charsOfUnits (us.take literalLimit)
  if us.length ≤ literalWidth then literalLine shown
  else " +\n  ".intercalate ((pieces [] shown).map literalLine)

end WordMachine.Text
