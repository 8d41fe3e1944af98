/-!
# Flags

A command knows flags, each by a short name, a long name or both; some take a value. Scanning reads
arguments from left to right and applies each known flag to the settings at once. What is no flag is
an operand. From the first unknown flag on, everything that is no known flag is kept apart, for a
subcommand to look at.
-/

namespace WordMachine.CommandLine

/-- What a flag does to settings of type `σ`. A value may be refused for reasons of type `ε`. -/
inductive Effect (σ ε : Type) where
  | switch (apply : σ → σ)
  -- It takes a value, which usage calls by a name.
  | value (placeholder : String) (apply : String → σ → Except ε σ)

inductive Default where
  | none
  -- An integer, which the data format of defaults has no form for.
  | integer (value : Int)
  deriving DecidableEq, Repr

structure Flag (σ ε : Type) where
  -- Its name behind one dash.
  short : Option Char := none
  -- Its name behind two dashes.
  long : String
  description : String
  fallback : Default := .none
  effect : Effect σ ε

namespace Flag

variable {σ ε : Type}

def longForm (f : Flag σ ε) : String :=
  "--" ++ f.long

/-- The flag's forms, with the name of its value. -/
def usage (f : Flag σ ε) : String :=
  let short := match f.short with
    | some c => "-" ++ String.singleton c ++ ", "
    | none => ""
  let value := match f.effect with
    | .switch _ => ""
    | .value placeholder _ => " <" ++ placeholder ++ ">"
  short ++ f.longForm ++ value

def isWritten (f : Flag σ ε) (arg : List Char) : Bool :=
  match arg with
  | ['-', c] => f.short == some c
  | '-' :: '-' :: name => f.long.toList == name
  | _ => false

end Flag

def mayBeFlag : List Char → Bool
  | '-' :: _ :: _ => true
  | _ => false

/-- The part of a long flag before its first equals sign, and the value behind the sign. -/
def splitLong? (arg : List Char) : Option (List Char × List Char) :=
  match arg with
  | '-' :: '-' :: c :: rest =>
    if c = '=' then none
    else
      match (c :: rest).dropWhile (· ≠ '=') with
      | [] => none
      | _ :: value => some ('-' :: '-' :: (c :: rest).takeWhile (· ≠ '='), value)
  | _ => none

structure Scanned (σ : Type) where
  settings : σ
  -- The arguments that are no flags, in order.
  operands : List String := []
  -- The first unknown flag and all that is no known flag after it, in order.
  unknown : List String := []

namespace Scanned

variable {σ : Type}

def keep (s : Scanned σ) (arg : List Char) : Scanned σ :=
  if s.unknown.isEmpty && !mayBeFlag arg then
    { s with operands := s.operands ++ [String.ofList arg] }
  else { s with unknown := s.unknown ++ [String.ofList arg] }

/-- Keeps everything behind two lone dashes. -/
def keepRest (s : Scanned σ) (args : List (List Char)) : Scanned σ :=
  let rest := args.map String.ofList
  if s.unknown.isEmpty then { s with operands := s.operands ++ rest }
  else { s with unknown := s.unknown ++ "--" :: rest }

end Scanned

/-- Why scanning ends early. -/
inductive ScanProblem (ε : Type) where
  -- The flag with this usage came last, without its value.
  | missingValue (usage : String)
  -- The flag with this usage does not take this value.
  | badValue (usage value : String) (why : ε)
  deriving DecidableEq, Repr

/-- What an argument is to a command. -/
inductive Reading (σ ε : Type) where
  -- Two lone dashes: only operands follow.
  | endOfFlags
  -- A known flag that stands alone.
  | switch (apply : σ → σ)
  -- A known flag whose value is the next argument.
  | valueFollows (flag : Flag σ ε) (apply : String → σ → Except ε σ)
  -- A known flag together with its value.
  | valueAttached (flag : Flag σ ε) (apply : String → σ → Except ε σ) (value : List Char)
  -- A known short switch with more characters behind it, which are read as a short flag of their
  -- own.
  | bundle (apply : σ → σ) (rest : List Char)
  | other

variable {σ ε : Type}

/-- Reads a short flag with more characters behind it. -/
def readBundle (flags : List (Flag σ ε)) : List Char → Option (Reading σ ε)
  | '-' :: c :: d :: rest =>
    if c = '-' then none
    else
      match flags.find? (Flag.isWritten · ['-', c]) with
      | none => none
      | some flag =>
        match flag.effect with
        | .switch apply => some (.bundle apply (d :: rest))
        | .value _ apply => some (.valueAttached flag apply (d :: rest))
  | _ => none

/-- Reads a long flag with an equals sign and a value behind it. -/
def readLong (flags : List (Flag σ ε)) (arg : List Char) : Option (Reading σ ε) := do
  let (name, value) ← splitLong? arg
  let flag ← flags.find? (Flag.isWritten · name)
  match flag.effect with
  | .switch _ => none
  | .value _ apply => some (.valueAttached flag apply value)

def read (flags : List (Flag σ ε)) (arg : List Char) : Reading σ ε :=
  if arg = ['-', '-'] then .endOfFlags
  else
    match flags.find? (Flag.isWritten · arg) with
    | some flag =>
      match flag.effect with
      | .switch apply => .switch apply
      | .value _ apply => .valueFollows flag apply
    | none => ((readBundle flags arg).or (readLong flags arg)).getD .other

def applyValue (flag : Flag σ ε) (apply : String → σ → Except ε σ) (value : List Char)
    (s : Scanned σ) : Except (ScanProblem ε) (Scanned σ) :=
  let value := String.ofList value
  match apply value s.settings with
  | .ok settings => .ok { s with settings }
  | .error why => .error (.badValue flag.usage value why)

def applySwitch (apply : σ → σ) (s : Scanned σ) : Scanned σ :=
  { s with settings := apply s.settings }

/-- The number of steps that arguments are read in: a bundle of short flags takes one for each
character. -/
def scanLength (args : List (List Char)) : Nat :=
  args.flatten.length + args.length

/-- Scans arguments in at most `fuel` steps. -/
def scanFrom (flags : List (Flag σ ε)) :
    Nat → Scanned σ → List (List Char) → Except (ScanProblem ε) (Scanned σ)
  | _, s, [] => .ok s
  | 0, s, _ => .ok s
  | fuel + 1, s, arg :: args =>
    match read flags arg with
    | .endOfFlags => .ok (s.keepRest args)
    | .other => scanFrom flags fuel (s.keep arg) args
    | .switch apply => scanFrom flags fuel (applySwitch apply s) args
    -- What stands behind the switch becomes a short flag of its own.
    | .bundle apply rest => scanFrom flags fuel (applySwitch apply s) (('-' :: rest) :: args)
    | .valueAttached flag apply value =>
      match applyValue flag apply value s with
      | .error problem => .error problem
      | .ok s => scanFrom flags fuel s args
    | .valueFollows flag apply =>
      -- The next argument is the value, whatever it looks like.
      match args with
      | [] => .error (.missingValue flag.usage)
      | value :: args =>
        match applyValue flag apply value s with
        | .error problem => .error problem
        | .ok s => scanFrom flags fuel s args

def scan (flags : List (Flag σ ε)) (settings : σ) (args : List String) :
    Except (ScanProblem ε) (Scanned σ) :=
  let args := args.map String.toList
  scanFrom flags (scanLength args) { settings } args

end WordMachine.CommandLine
