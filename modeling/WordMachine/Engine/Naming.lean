/-!
# Names of engines

Engines are numbered from one in the order in which they are made. One that is given no name is
called after its number.
-/

namespace WordMachine.Engine

def defaultName (number : Nat) : String :=
  "engine-" ++ toString number

/-- The names of engines that are made one after another, the first with the given number. -/
def names (number : Nat) : List (Option String) → List String
  | [] => []
  | given :: rest => given.getD (defaultName number) :: names (number + 1) rest

end WordMachine.Engine
