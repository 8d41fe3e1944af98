import WordMachine.CommandLine.Invocation
import WordMachine.Files

/-!
# Responses

What the program does about an invocation: what it writes on its two streams, what it logs, and the
exit code it chooses.
-/

namespace WordMachine.CommandLine

/-- What the program leaves behind when it is over. -/
structure Response where
  -- The exit code, if the program has chosen one.
  exitCode : Option Nat := none
  output : String := ""
  errors : String := ""
  log : List Log.Line := []

namespace Response

def told (output : String) : Response :=
  { exitCode := some 0, output }

def refused (errors : String) : Response :=
  { exitCode := some 1, errors }

/-- The response to a job: its report as text and in the log, or its failure in the log. -/
def ofOutcome {α : Type} (failure : String) (text : α → String) (lines : α → List Log.Line)
    (o : Outcome α) : Response :=
  match o.result with
  | .ok report => { output := o.printed ++ text report, log := o.log ++ lines report }
  | .error why =>
    { exitCode := some 1
      output := o.printed
      log := o.log ++ [{ level := .error, message := failure, values := [.fault why] }] }

end Response

/-- How the program comes to its end. -/
inductive Conclusion where
  | response (r : Response)
  -- With a help page that cannot be shown.
  | noPage
  -- Without a response, because the engines of a network wait for each other.
  | deadlock

/-- The complaint about a default value that a help page cannot show. -/
def noPageMessage : String := "Do not know how to serialize a BigInt"

def Conclusion.ofPage (respond : String → Response) : Option Page → Conclusion
  | some page => .response (respond page.text)
  | none => .noPage

def Response.ofRun (o : Outcome RunJob.Report) : Response :=
  ofOutcome "Failed to run program:" RunJob.Report.text (fun r => [r.line]) o

def Response.ofPaint (job : PaintJob) (o : Outcome PaintJob.Report) : Response :=
  ofOutcome "Failed to paint:" (PaintJob.Report.text job) (fun _ => []) o

def Response.ofAmplify (result : Except Fault Best) : Response :=
  ofOutcome "Failed to amplify:" AmplifyJob.text (fun best => [AmplifyJob.line best]) { result }

namespace Job

/-- Does a job on an image, which may fail to be one, with a text on the console. There is no
conclusion if `fuel` does not suffice. -/
def conclude (fuel : Nat) (image : Except Fault Image) (text : String) : Job → Option Conclusion
  | run job => (job.outcome fuel image text).map fun o => .response (.ofRun o)
  | paint job => (job.outcome fuel image).map fun o => .response (.ofPaint job o)
  | amplify job =>
    (job.verdict fuel image).map fun
      | .finished result => .response (.ofAmplify result)
      | .deadlock => .deadlock

end Job

/-- Answers an invocation, given what the files hold and a text on the console. -/
def Invocation.conclude (fuel : Nat) (file : String → Except FileProblem (List UInt8))
    (text : String) : Invocation → Option Conclusion
  | .version => some (.response (.told (CommandLine.version ++ "\n")))
  | .help topic => some (.ofPage .told topic.page?)
  | .idle => some (.ofPage .refused programPage?)
  | .misuse why => some (.response (.refused (why.message ++ "\n")))
  | .perform path job => job.conclude fuel (Image.ofFile (file path)) text

end WordMachine.CommandLine
