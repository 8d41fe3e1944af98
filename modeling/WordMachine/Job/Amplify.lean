import WordMachine.Interval
import WordMachine.Job.Outcome
import WordMachine.Network.Search

/-!
# Amplifying a signal

Copies of a program are wired into a network, with given phases or with those that lead to the
strongest signal.
-/

namespace WordMachine

structure AmplifyJob where
  -- The phases in the order of the engines. With them nothing is searched.
  phases : Option (List Int) := none
  -- The phase values to search, if not the usual ones.
  range : Option (List Int) := none
  -- Whether the last output comes back to the first engine.
  feedback : Bool := false
  signal : Int := 0
  deriving DecidableEq, Repr

namespace AmplifyJob

def wiring (job : AmplifyJob) : Wiring :=
  { feedback := job.feedback, signal := job.signal }

/-- The phase values that are usually searched. A ring has other ones than a chain. -/
def usualRange (feedback : Bool) : List Int :=
  if feedback then Interval.toList 5 9 else Interval.toList 0 4

def searched (job : AmplifyJob) : List Int :=
  job.range.getD (usualRange job.feedback)

def verdict (fuel : Nat) (job : AmplifyJob) (image : Except Fault Image) : Option (Verdict Best) :=
  match image, job.phases with
  | .error why, _ => some (.finished (.error why))
  | .ok image, some phases =>
    (Network.runCopies fuel job.wiring image phases).map
      (Verdict.map fun result => ⟨result.signal, phases⟩)
  | .ok image, none => Network.search fuel job.wiring image job.searched

def text (best : Best) : String :=
  Text.ofInteger best.signal ++ "\n"

def line (best : Best) : Log.Line :=
  { level := .info
    message := "Best phase sequence: " ++ ",".intercalate (best.phases.map Text.ofInteger) }

end AmplifyJob

end WordMachine
