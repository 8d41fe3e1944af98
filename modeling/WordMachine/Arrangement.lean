/-!
# Arrangements

The arrangements of a list are its rearrangements by position, in lexicographic order of the
positions. Equal items at different positions count as different. They are numbered from zero, and
any one of them can be had from its number alone.
-/

namespace WordMachine.Arrangement

variable {α : Type}

/-- The number of arrangements of so many items. -/
def count : Nat → Nat
  | 0 => 1
  | n + 1 => (n + 1) * count n

/-- The arrangement with the given number of the first `n` items. The number's quotient by the count
of arrangements of one item less picks the first item, its remainder arranges the others. -/
def nthOf : Nat → List α → Nat → List α
  | 0, _, _ => []
  | n + 1, items, number =>
    let position := number / count n
    match items[position]? with
    | none => []
    | some first => first :: nthOf n (items.eraseIdx position) (number % count n)

def nth (items : List α) (number : Nat) : List α :=
  nthOf items.length items number

def take (limit : Nat) (items : List α) : List (List α) :=
  (List.range (min limit (count items.length))).map (nth items)

end WordMachine.Arrangement
