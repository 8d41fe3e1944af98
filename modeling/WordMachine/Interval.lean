/-!
# Intervals of integers
-/

namespace WordMachine.Interval

/-- The integers from the first to the last one, both included, in order. -/
def toList (first last : Int) : List Int :=
  (List.range (last - first + 1).toNat).map fun (k : Nat) => first + k

end WordMachine.Interval
