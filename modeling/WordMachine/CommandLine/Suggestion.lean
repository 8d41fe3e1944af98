import WordMachine.Text.Units

/-!
# Suggestions

A word that is not known may be a known one misspelt. The distance between two words is the least
number of edits that turn one into the other, where an edit inserts, deletes or replaces a character
or swaps two neighbours, and no part of the word is edited twice. Words are suggested if they are
nearest, at a distance of at most three, and more alike than different enough.

Lengths and characters are those of UTF-16.
-/

namespace WordMachine.CommandLine

namespace Suggestion

def maxDistance : Nat := 3

/-- The next row of the table of distances, which has a column for every beginning of the other
word. `unit` and `before` are the last two units of the word so far, `above` and `aboveThat` the rows
of the words one and two units shorter. -/
def nextRow (other : Array Nat) (unit : Nat) (before : Option Nat) (above aboveThat : Array Nat) :
    Array Nat :=
  (List.range other.size).foldl
    (fun row column =>
      let cost := if other[column]? = some unit then 0 else 1
      -- Without a swap: delete from the word, insert into it, or replace.
      let plain := min (min (above.getD (column + 1) 0 + 1) (row.getD column 0 + 1))
        (above.getD column 0 + cost)
      let isSwap := 0 < column && before.isSome && other[column]? = before &&
        other[column - 1]? = some unit
      row.push (if isSwap then min plain (aboveThat.getD (column - 1) 0 + 1) else plain))
    #[above.getD 0 0 + 1]

/-- The last row of the table, from the two rows of a beginning of the word on. -/
def lastRow (other : Array Nat) :
    (before : Option Nat) → (above aboveThat : Array Nat) → List Nat → Array Nat
  | _, above, _, [] => above
  | before, above, aboveThat, unit :: rest =>
    lastRow other (some unit) (nextRow other unit before above aboveThat) above rest

def distance (a b : List Nat) : Nat :=
  (lastRow b.toArray none (Array.range (b.length + 1)) #[] a).back?.getD 0

/-- The distance between two words, if it is small enough for a suggestion. -/
def closeness? (word candidate : List Nat) : Option Nat :=
  if candidate.length ≤ 1 then none
  else
    let d := distance word candidate
    let length := max word.length candidate.length
    -- More than two fifths of the longer word must have been left alone.
    if d ≤ maxDistance && 4 * length < 10 * (length - d) then some d else none

/-- The candidates nearest to a word, in alphabetical order. -/
def similar (word : String) (candidates : List String) : List String :=
  let scored := candidates.eraseDups.filterMap fun c =>
    (closeness? (Text.units word) (Text.units c)).map fun d => (d, c)
  match (scored.map Prod.fst).min? with
  | none => []
  | some best =>
    ((scored.filter fun (d, _) => d = best).map Prod.snd).mergeSort fun a b => a ≤ b

/-- What follows a complaint about an unknown word: the words that may have been meant. Of an option
only what stands behind the two dashes is compared. -/
def text (word : String) (candidates : List String) : String :=
  let isOption := word.startsWith "--"
  let strip (w : String) : String := if isOption then String.ofList (w.toList.drop 2) else w
  let dashes := if isOption then "--" else ""
  match (similar (strip word) (candidates.map strip)).map fun w => dashes ++ w with
  | [] => ""
  | [found] => "\n(Did you mean " ++ found ++ "?)"
  | found => "\n(Did you mean one of " ++ ", ".intercalate found ++ "?)"

end Suggestion

end WordMachine.CommandLine
