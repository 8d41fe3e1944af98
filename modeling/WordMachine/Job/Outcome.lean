import WordMachine.Fault
import WordMachine.Log.Line

/-!
# Outcomes of jobs

A job is what the machine is started for. Whatever the job, it ends with a report or a fault, and
leaves behind what was printed on the way and a log.
-/

namespace WordMachine

/-- What comes of a job with reports of type `α`. -/
structure Outcome (α : Type) where
  result : Except Fault α
  -- What was printed before the job ended.
  printed : String := ""
  log : List Log.Line := []

namespace Outcome

def failed {α : Type} (why : Fault) : Outcome α :=
  { result := .error why }

/-- The outcome of a job on an image, which may fail to be one. -/
def onImage {α : Type} (image : Except Fault Image) (outcome : Image → Option (Outcome α)) :
    Option (Outcome α) :=
  match image with
  | .error why => some (failed why)
  | .ok image => outcome image

end Outcome

end WordMachine
