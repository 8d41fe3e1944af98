import WordMachine.Engine.Report
import WordMachine.Job.Outcome
import WordMachine.Robot.Picture

/-!
# Painting a hull

A single engine drives the painting robot; the report counts the painted panels and shows them.
-/

namespace WordMachine

structure PaintJob where
  start : Color := .black
  render : Bool := false
  deriving DecidableEq, Repr

namespace PaintJob

def engineName : String := "robot"

structure Report where
  -- The number of panels painted at least once.
  painted : Nat
  picture : String
  deriving DecidableEq, Repr

def Report.ofRobot (r : Robot) : Report :=
  { painted := r.paintedCount, picture := r.picture }

def finishedLine (r : Robot) : Log.Line :=
  { level := .debug
    message := "Robot finished"
    values := [.fields
      [("position",
        .fields [("x", .number (.ofInt r.position.x)), ("y", .number (.ofInt r.position.y))])]] }

/-- Lets a program drive the robot. There is no outcome if it takes more than `fuel` steps after the
first. -/
def drive (fuel : Nat) (job : PaintJob) (image : Image) : Option (Outcome Report) := do
  let (e, r, turn) ←
    (Engine.load engineName image).run Robot.device fuel { start := some job.start }
  match ← turn.answer? with
  | .ok _ => return { result := .ok (Report.ofRobot r), log := e.log ++ [finishedLine r] }
  | .error why => return { result := .error why, log := e.log }

def outcome (fuel : Nat) (job : PaintJob) (image : Except Fault Image) : Option (Outcome Report) :=
  Outcome.onImage image (job.drive fuel)

/-- What is printed for a report: the count, and the picture if it was asked for. -/
def Report.text (job : PaintJob) (r : Report) : String :=
  toString r.painted ++ "\n" ++ if job.render then r.picture else ""

end PaintJob

end WordMachine
