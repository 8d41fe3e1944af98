import WordMachine.CommandLine.Response
import WordMachine.Device.Terminal
import WordMachine.Environment
import WordMachine.Log.Text

/-!
# The program

Completes the environment from its file, initialises the logger, reads the arguments and does what
they ask for. Everything that is decided on the way is decided by the modules below this one.
-/

namespace WordMachine.Main

open CommandLine Log

def fuel : Nat := 1000000000000000000

def readFile (path : String) : IO (Except FileProblem (List UInt8)) := do
  try
    let bytes ← IO.FS.readBinFile path
    return .ok bytes.toList
  catch e =>
    match e with
    | .noFileOrDirectory .. => return .error (.missing path)
    | .inappropriateType (some _) .. => return .error (.notDirectory path)
    | .inappropriateType none .. => return .error .isDirectory
    | e => throw e

/-- Takes typed lines until one of them is a word, and returns the lines behind it. -/
partial def nextReply (input output : IO.FS.Stream) (lines : List (List Char)) :
    IO (Reply × List (List Char)) := do
  match lines with
  | line :: rest =>
    match Console.replyTo line with
    | some reply => return (reply, rest)
    | none =>
      output.putStrLn Console.retry
      output.flush
      nextReply input output rest
  | [] =>
    let typed ← input.getLine
    if typed.isEmpty then return (.endOfStream Console.source, [])
    else nextReply input output (Text.lines typed.toList)

/-- Runs an engine on a terminal. -/
partial def converse (input output : IO.FS.Stream) (lines : List (List Char)) :
    Option (Engine × Console × Turn RunResult) → IO (Outcome RunJob.Report)
  | none => throw (IO.userError "the program does not stop")
  | some (e, c, turn) => do
    output.putStr c.written
    output.flush
    match turn with
    | .answered answer =>
      return { result := answer.map fun result => ⟨result, []⟩, log := e.log }
    | .waiting pending =>
      let (reply, lines) ← nextReply input output lines
      let (e, turn) := e.resume pending reply
      converse input output lines (Engine.runOn Console.terminal fuel (e, c.wipe, turn))

/-- Does what an invocation asks for. A run without inputs takes them from standard input. -/
def conclude (input output : IO.FS.Stream) (invocation : Invocation) : IO (Option Conclusion) := do
  match invocation with
  | .perform path job =>
    let content ← readFile path
    match job, Image.ofFile content with
    | .run job@{ input := none, .. }, .ok image =>
      let start := (job.engine image).run Console.terminal fuel (Console.ofText "")
      let outcome ← converse input output [] start
      return some (.response (.ofRun outcome))
    | _, _ => return invocation.conclude fuel (fun _ => content) ""
  | _ => return invocation.conclude fuel (fun path => .error (.missing path)) ""

def flush (l : Logger) : IO Unit := do
  for r in l.errors do IO.eprintln r.text
  for r in l.output do IO.println r.text

def carryOut (l : Logger) : Option Conclusion → IO UInt32
  | some (.response r) => do
    IO.print r.output
    IO.eprint r.errors
    flush (l.logAll r.log)
    return (r.exitCode.getD 0).toUInt32
  | some .noPage => do
    flush (l.logAll
      [{ level := .error, message := "Command failed:", values := [.text noPageMessage] }])
    return 1
  | some .deadlock => return 0
  | none => throw (IO.userError "the program does not stop")

def inherited : IO Environment.Variables := do
  let values ← Environment.base.mapM fun f => do
    let value ← IO.getEnv f.name
    return value.map fun value => (f.name, Environment.Setting.text value)
  return values.filterMap id

/-- A logger that follows the environment, or the complaints about the environment. -/
def logger : IO (Except (List String) Logger) := do
  let vars ← inherited
  let content ← readFile Environment.defaultPath
  let text := content.toOption.map Text.ofBytes
  let level := "LOG_LEVEL"
  let start := match vars.lookup level with
    | some (.text name) => name
    | _ => ""
  match Logger.create start, (Environment.load vars text).2 with
  | .error why, _ => return .error [why.message]
  | .ok _, .error issues => return .error (issues.map Environment.Issue.message)
  | .ok l, .ok values =>
    match l.init (((values.lookup level).map .text).getD .null) with
    | .ok l => return .ok l
    | .error why => return .error [why.message]

end WordMachine.Main

def main (args : List String) : IO UInt32 := do
  match ← WordMachine.Main.logger with
  | .error complaints =>
    for complaint in complaints do IO.eprintln complaint
    return 1
  | .ok l =>
    let input ← IO.getStdin
    let output ← IO.getStdout
    let invocation := WordMachine.CommandLine.Invocation.ofArgs args
    WordMachine.Main.carryOut l (← WordMachine.Main.conclude input output invocation)
