import WordMachine.Arrangement
import WordMachine.Network

/-!
# The strongest signal

The search runs a network of copies of one program for every arrangement of the phase values and
keeps the first arrangement with the strongest signal. The first run that fails or deadlocks ends
it.
-/

namespace WordMachine

/-- An arrangement of the phases with the signal it leads to. -/
structure Best where
  signal : Int
  phases : List Int
  deriving DecidableEq, Repr

namespace Best

/-- A candidate wins only with a stronger signal. -/
def improve (best : Option Best) (candidate : Best) : Best :=
  match best with
  | none => candidate
  | some best => if best.signal < candidate.signal then candidate else best

end Best

namespace Network

/-- Searches the arrangements numbered from `number` on, of which `left` are left. -/
def searchFrom (runs : List Int → Option (Verdict NetworkResult)) (phases : List Int) :
    (left number : Nat) → Option Best → Option (Verdict Best)
  | 0, _, none => some (.finished (.error .nothingToSearch))
  | 0, _, some best => some (.finished (.ok best))
  | left + 1, number, best =>
    let arrangement := Arrangement.nth phases number
    match runs arrangement with
    | none => none
    | some .deadlock => some .deadlock
    | some (.finished (.error why)) => some (.finished (.error why))
    -- An equally strong signal changes nothing: the first arrangement wins.
    | some (.finished (.ok result)) =>
      searchFrom runs phases left (number + 1)
        (some (Best.improve best ⟨result.signal, arrangement⟩))

/-- The strongest signal over all arrangements of the phase values. -/
def search (fuel : Nat) (wiring : Wiring) (image : Image) (phases : List Int) :
    Option (Verdict Best) :=
  if phases.isEmpty then some (.finished (.error .nothingToSearch))
  else
    searchFrom (runCopies fuel wiring image) phases (Arrangement.count phases.length) 0 none

end Network

end WordMachine
