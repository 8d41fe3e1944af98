/-!
# Blank characters

The characters that separate words and that trimming removes: tab, line feed, vertical tab, form
feed, carriage return, the spaces of the Unicode category `Zs`, the two Unicode line terminators and
the byte order mark. Next line (U+0085), the Mongolian vowel separator and the zero width space are
not blank.
-/

namespace WordMachine.Text

/-- Code points of the blank characters outside the ranges U+0009–U+000D and U+2000–U+200A. -/
def scatteredBlanks : List Nat :=
  [0x20, 0xA0, 0x1680, 0x2028, 0x2029, 0x202F, 0x205F, 0x3000, 0xFEFF]

/-- Separates words, and is removed by trimming. -/
def isBlank (c : Char) : Bool :=
  let n := c.toNat
  (0x09 ≤ n && n ≤ 0x0D) || (0x2000 ≤ n && n ≤ 0x200A) || scatteredBlanks.contains n

def trimLeft (cs : List Char) : List Char :=
  cs.dropWhile isBlank

def trimRight (cs : List Char) : List Char :=
  (trimLeft cs.reverse).reverse

def trim (cs : List Char) : List Char :=
  trimRight (trimLeft cs)

/-- The maximal runs of characters that are no separators, in order. -/
def fields (isSeparator : Char → Bool) (cs : List Char) : List (List Char) :=
  (cs.splitOnP isSeparator).filter fun run => !run.isEmpty

end WordMachine.Text
