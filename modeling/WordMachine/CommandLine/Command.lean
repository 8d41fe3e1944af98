import WordMachine.CommandLine.Flag
import WordMachine.CommandLine.Help
import WordMachine.CommandLine.Value
import WordMachine.Job.Amplify
import WordMachine.Job.Paint
import WordMachine.Job.Run

/-!
# Commands

The program runs three jobs, each by a command of its own. This module holds what a command line may
say about each of them, and the help pages.
-/

namespace WordMachine.CommandLine

def programName : String := "wordvm"

def version : String := "0.1.0"

inductive Command where
  | run
  | amplify
  | paint
  deriving DecidableEq, Repr

inductive Job where
  | run (job : RunJob)
  | amplify (job : AmplifyJob)
  | paint (job : PaintJob)
  deriving DecidableEq, Repr

/-- The flags of the program itself. They are switched on. -/
def programFlags : List (Flag Bool BadValue) :=
  [{ short := some 'V'
     long := "version"
     description := "output the version number"
     effect := .switch fun _ => true }]

def runFlags : List (Flag RunJob BadValue) :=
  [{ short := some 'i'
     long := "input"
     description := "Comma separated inputs; without it the console is used"
     effect := .value "values" fun text job => do
      let words ← Value.words text
      return { job with input := some (words.map Int64.toInt) } },
   { long := "trace"
     description := "Log every executed instruction at debug level"
     effect := .switch fun job => { job with trace := true } }]

def amplifyFlags : List (Flag AmplifyJob BadValue) :=
  [{ short := some 'p'
     long := "phases"
     description := "Comma separated phase per engine; skips the search"
     effect := .value "values" fun text job => do
      let words ← Value.words text
      return { job with phases := some (words.map Int64.toInt) } },
   { long := "range"
     description := "Phase values to search (default 0..4, or 5..9 with --feedback)"
     effect := .value "start..end" fun text job => do
      let words ← Value.range text
      return { job with range := some (words.map Int64.toInt) } },
   { short := some 'f'
     long := "feedback"
     description := "Feed the last output back into the first engine"
     effect := .switch fun job => { job with feedback := true } },
   { short := some 's'
     long := "signal"
     description := "Initial signal"
     fallback := .integer 0
     effect := .value "value" fun text job => do
      let word ← Value.word text
      return { job with signal := word.toInt } }]

def paintFlags : List (Flag PaintJob BadValue) :=
  [{ long := "start"
     description := "Color of the starting panel (black or white)"
     fallback := .integer Color.black.code
     effect := .value "color" fun text job => do
      let color ← Value.color text
      return { job with start := color } },
   { long := "render"
     description := "Print the painted hull as a netpbm (P1) image"
     effect := .switch fun job => { job with render := true } }]

structure FlagNote where
  longForm : String
  entry : Entry
  fallback : Default
  deriving DecidableEq, Repr

def Flag.note {σ ε : Type} (f : Flag σ ε) : FlagNote :=
  { longForm := f.longForm, entry := ⟨f.usage, f.description⟩, fallback := f.fallback }

def helpNote : FlagNote :=
  { longForm := "--help", entry := ⟨"-h, --help", "display help for command"⟩, fallback := .none }

def asksForHelp (arg : String) : Bool :=
  arg = "-h" || arg = "--help"

def programNotes : List FlagNote :=
  programFlags.map Flag.note ++ [helpNote]

/-- The page that lists some flags, if their default values can be shown. -/
def page? (usage description : String) (before : List Listing) (notes : List FlagNote)
    (after : List Listing) : Option Page :=
  if notes.all fun n => n.fallback = .none then
    some
      { usage
        description
        listings := before ++ ⟨"Options", notes.map FlagNote.entry⟩ :: after }
  else none

namespace Command

def all : List Command :=
  [run, amplify, paint]

def name : Command → String
  | run => "run"
  | amplify => "amplify"
  | paint => "paint"

def ofName? (name : String) : Option Command :=
  all.find? fun c => c.name = name

def description : Command → String
  | run => "Run a program on a single engine"
  | amplify => "Wire copies of a program into a chain (or ring) and report the final signal"
  | paint => "Drive the hull painting robot with a program"

/-- What every command is about. -/
def operand : Entry :=
  ⟨"program", "Program image file"⟩

def usage (c : Command) : String :=
  c.name ++ " [options] <" ++ operand.term ++ ">"

def notes (c : Command) : List FlagNote :=
  let own := match c with
    | run => runFlags.map Flag.note
    | amplify => amplifyFlags.map Flag.note
    | paint => paintFlags.map Flag.note
  own ++ [helpNote]

def page? (c : Command) : Option Page :=
  CommandLine.page? (programName ++ " " ++ c.usage) c.description [⟨"Arguments", [operand]⟩] c.notes
    []

end Command

def helpCommand : String := "help"

def commandNames : List String :=
  Command.all.map Command.name ++ [helpCommand]

def programPage? : Option Page :=
  let entries := Command.all.map fun c => ⟨c.usage, c.description⟩
  let help : Entry := ⟨helpCommand ++ " [command]", "display help for command"⟩
  page? (programName ++ " [options] [command]")
    "Run word VM programs, amplifier networks and the painting robot" [] programNotes
    [⟨"Commands", entries ++ [help]⟩]

end WordMachine.CommandLine
