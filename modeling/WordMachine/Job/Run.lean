import WordMachine.Device.Console
import WordMachine.Device.Script
import WordMachine.Engine.Report
import WordMachine.Job.Outcome

/-!
# Running a program

A single engine runs a program, either on a script of inputs, whose outputs are part of the report,
or on a console, which prints the outputs as they come.
-/

namespace WordMachine

structure RunJob where
  -- The inputs. Without them a console is asked for each.
  input : Option (List Int) := none
  trace : Bool := false
  deriving DecidableEq, Repr

namespace RunJob

def engineName : String := "main"

structure Report where
  result : RunResult
  -- The outputs for a script, oldest first. A console has printed its own.
  outputs : List Int
  deriving DecidableEq, Repr

def engine (job : RunJob) (image : Image) : Engine :=
  Engine.load engineName image job.trace

def onScript (fuel : Nat) (job : RunJob) (image : Image) (inputs : List Int) :
    Option (Outcome Report) := do
  let (e, s, turn) ← (job.engine image).run Script.device fuel (Script.ofList inputs)
  let answer ← turn.answer?
  return { result := answer.map fun result => ⟨result, s.outputs.toList⟩, log := e.log }

def onConsole (fuel : Nat) (job : RunJob) (image : Image) (text : String) :
    Option (Outcome Report) := do
  let (e, c, turn) ← (job.engine image).run Console.device fuel (Console.ofText text)
  let answer ← turn.answer?
  return { result := answer.map fun result => ⟨result, []⟩, printed := c.written, log := e.log }

/-- Runs the program of an image, which may fail to be one. There is no outcome if it takes more than
`fuel` steps after the first. -/
def outcome (fuel : Nat) (job : RunJob) (image : Except Fault Image) (text : String) :
    Option (Outcome Report) :=
  Outcome.onImage image fun image =>
    match job.input with
    | some inputs => job.onScript fuel image inputs
    | none => job.onConsole fuel image text

/-- What is printed for a report: an output per line. -/
def Report.text (r : Report) : String :=
  String.join (r.outputs.map fun value => Text.ofInteger value ++ "\n")

def Report.line (r : Report) : Log.Line :=
  { level := .info, message := "Program stopped after " ++ toString r.result.steps ++ " steps" }

end RunJob

end WordMachine
