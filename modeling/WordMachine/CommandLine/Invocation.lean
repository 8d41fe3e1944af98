import WordMachine.CommandLine.Command
import WordMachine.CommandLine.Suggestion

/-!
# Invocations

An invocation is what the arguments of the program amount to: a job on a program file, a question
about the program, or a misuse. The program's own flags are looked for first, wherever they stand;
the first other argument names the command, which looks at the rest.
-/

namespace WordMachine.CommandLine

inductive Misuse where
  -- A flag came last, without its value.
  | missingValue (usage : String)
  | badValue (usage value : String) (why : BadValue)
  -- There is no such flag among those that the command and the program know.
  | unknownFlag (arg : String) (known : List String)
  | unknownCommand (arg : String)
  | missingOperand (name : String)
  deriving DecidableEq, Repr

namespace Misuse

def ofProblem : ScanProblem BadValue → Misuse
  | .missingValue usage => missingValue usage
  | .badValue usage value why => badValue usage value why

def message : Misuse → String
  | missingValue usage => "error: option '" ++ usage ++ "' argument missing"
  | badValue usage value why =>
    "error: option '" ++ usage ++ "' argument '" ++ value ++ "' is invalid. " ++ why.message
  | unknownFlag arg known =>
    "error: unknown option '" ++ arg ++ "'" ++
      if arg.startsWith "--" then Suggestion.text arg known else ""
  | unknownCommand arg =>
    "error: unknown command '" ++ arg ++ "'" ++ Suggestion.text arg commandNames
  | missingOperand name => "error: missing required argument '" ++ name ++ "'"

end Misuse

inductive Topic where
  | program
  | command (c : Command)
  deriving DecidableEq, Repr

def Topic.page? : Topic → Option Page
  | program => programPage?
  | command c => c.page?

/-- What the arguments of the program amount to. -/
inductive Invocation where
  -- A job on the program in a file.
  | perform (path : String) (job : Job)
  | version
  | help (topic : Topic)
  -- Nothing to do, which is answered with help.
  | idle
  | misuse (why : Misuse)
  deriving DecidableEq, Repr

namespace Invocation

variable {σ : Type}

/-- Reads what follows a command's name: the operands, and the arguments that are left for the
command to scan. -/
def ofScan (c : Command) (flags : List (Flag σ BadValue)) (settings : σ) (job : σ → Job)
    (operands rest : List String) : Invocation :=
  match scan flags settings rest with
  | .error problem => .misuse (.ofProblem problem)
  | .ok found =>
    -- A question for help comes before every complaint but one about a value.
    if found.unknown.any asksForHelp then .help (.command c)
    else
      match found.unknown, operands ++ found.operands with
      | arg :: _, _ => .misuse (.unknownFlag arg ((c.notes ++ programNotes).map FlagNote.longForm))
      | [], [] => .misuse (.missingOperand Command.operand.term)
      -- Further operands are let pass.
      | [], path :: _ => .perform path (job found.settings)

def ofCommand (c : Command) (operands rest : List String) : Invocation :=
  match c with
  | .run => ofScan c runFlags {} .run operands rest
  | .amplify => ofScan c amplifyFlags {} .amplify operands rest
  | .paint => ofScan c paintFlags {} .paint operands rest

def ofHelp : List String → Invocation
  | [] => .help .program
  | name :: _ =>
    match Command.ofName? name with
    | some c => .help (.command c)
    -- An empty name is no name.
    | none => if name = "" then .help .program else .idle

/-- Reads arguments of the program that name no command. -/
def ofUnknown : List String → List String → Invocation
  | [], [] => .idle
  | operands, unknown =>
    if unknown.any asksForHelp then .help .program
    else
      match operands, unknown with
      | arg :: _, _ => .misuse (.unknownCommand arg)
      | [], arg :: _ => .misuse (.unknownFlag arg (programNotes.map FlagNote.longForm))
      | [], [] => .idle

def ofArgs (args : List String) : Invocation :=
  match scan programFlags false args with
  | .error problem => .misuse (.ofProblem problem)
  | .ok found =>
    if found.settings then .version
    else
      match found.operands with
      | [] => ofUnknown [] found.unknown
      | name :: operands =>
        match Command.ofName? name with
        | some c => ofCommand c operands found.unknown
        | none =>
          if name = helpCommand then ofHelp operands
          else ofUnknown (name :: operands) found.unknown

end Invocation

end WordMachine.CommandLine
