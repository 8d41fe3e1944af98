import WordMachine.Image
import WordMachine.Text.Literal

/-!
# Faults

Everything that can go wrong between reading a program and the end of a run, as causes.
`Fault.message` words them, `Fault.kind` and `Fault.code?` classify them, and `Fault.site?` tells
where an instruction failed.
-/

namespace WordMachine

inductive Stop where
  | halted
  | ended
  | faulted
  deriving DecidableEq, Repr

def Stop.text : Stop → String
  | .halted => "halted"
  | .ended => "ended"
  | .faulted => "faulted"

inductive FileProblem where
  | missing (path : String)
  | notDirectory (path : String)
  | isDirectory
  -- The path, or a name on it, is longer than the system allows.
  | nameTooLong (path : String)
  | nullInPath (path : String)
  deriving DecidableEq, Repr

/-- The complaint about a null character, in UTF-16. Of all complaints only this one shows the path as
a literal, and not all of a long one. -/
def nullNotice (path : String) : List Nat :=
  Text.units "The argument 'path' must be a string, Uint8Array, or URL without null bytes. Received " ++
    Text.cut 128 (Text.units (Text.literal path))

def FileProblem.message : FileProblem → String
  | .missing path => "ENOENT: no such file or directory, open '" ++ path ++ "'"
  | .notDirectory path => "ENOTDIR: not a directory, open '" ++ path ++ "'"
  | .isDirectory => "EISDIR: illegal operation on a directory, read"
  | .nameTooLong path => "ENAMETOOLONG: name too long, open '" ++ path ++ "'"
  | .nullInPath path => Text.ofUnits (nullNotice path)

def FileProblem.kind : FileProblem → String
  | .nullInPath _ => "TypeError"
  | _ => "Error"

def FileProblem.code : FileProblem → String
  | .missing _ => "ENOENT"
  | .notDirectory _ => "ENOTDIR"
  | .isDirectory => "EISDIR"
  | .nameTooLong _ => "ENAMETOOLONG"
  | .nullInPath _ => "ERR_INVALID_ARG_VALUE"

inductive Fault where
  | unknownOpcode (opcode : Int) (pc : Int)
  | unknownMode (mode : Int) (opcode : Int) (pc : Int)
  -- An operand or a jump target lies outside the address space.
  | invalidAddress (address : Int) (opcode : Int) (pc : Int)
  -- The destination of a write is a literal.
  | invalidWrite (literal : Int) (opcode : Int) (pc : Int)
  -- More inputs were asked for than a script holds.
  | inputExhausted (supplied : Int)
  | endOfStream (source : String)
  | channelClosed (channel : String)
  | badProgram (why : Image.Misread)
  -- A robot was told to paint a colour that does not exist.
  | badColor (value : Int)
  -- A robot was told to turn in a direction that does not exist.
  | badTurn (value : Int)
  -- An engine that has stopped was asked for another step.
  | terminated (engine : String) (how : Stop)
  -- A network needs as many phases as programs, and at least one.
  | networkShape (programs phases : Nat)
  | nothingToSearch
  -- A network stopped before its last engine emitted anything.
  | noOutput
  -- What an engine is attached to failed in its own way.
  | device (message : String)
  | unreadable (why : FileProblem)
  deriving DecidableEq, Repr

namespace Fault

def message : Fault → String
  | unknownOpcode opcode pc =>
    "Unrecognized opcode " ++ toString opcode ++ " at pc " ++ toString pc
  | unknownMode mode opcode pc =>
    "Unrecognized addressing mode " ++ toString mode ++ " for opcode " ++ toString opcode ++
      " at pc " ++ toString pc
  | invalidAddress address opcode pc =>
    "Invalid address " ++ toString address ++ " for opcode " ++ toString opcode ++
      " at pc " ++ toString pc
  | invalidWrite literal opcode pc =>
    "Nonsensical write to immediate " ++ toString literal ++ " for opcode " ++ toString opcode ++
      " at pc " ++ toString pc
  | inputExhausted supplied =>
    "Input requested after all " ++ toString supplied ++ " scripted values were consumed"
  | endOfStream source => "End of stream on " ++ source
  | channelClosed channel => "Send on closed channel " ++ channel
  | badProgram why => why.message
  | badColor value => "Invalid panel color " ++ toString value
  | badTurn value => "Invalid turn command " ++ toString value
  | terminated engine how =>
    "Engine " ++ engine ++ " has already terminated (" ++ how.text ++ ")"
  | networkShape programs phases =>
    "Network needs one phase per program (" ++ toString programs ++ " programs, " ++
      toString phases ++ " phases)"
  | nothingToSearch => "No phase values to search"
  | noOutput => "Network produced no output"
  | device message => message
  | unreadable why => why.message

/-- The wording in UTF-16, where it may hold half a character. -/
def units : Fault → List Nat
  | unreadable (.nullInPath path) => nullNotice path
  | fault => Text.units fault.message

/-- The program counter and the opcode of the instruction that failed. -/
def site? : Fault → Option (Int × Int)
  | unknownOpcode opcode pc => some (pc, opcode)
  | unknownMode _ opcode pc => some (pc, opcode)
  | invalidAddress _ opcode pc => some (pc, opcode)
  | invalidWrite _ opcode pc => some (pc, opcode)
  | _ => none

/-- The address that an instruction named in vain. -/
def address? : Fault → Option Int
  | invalidAddress address _ _ => some address
  | _ => none

/-- The kind of error that a fault is reported as. -/
def kind : Fault → String
  | unknownOpcode .. | unknownMode .. => "DecodeError"
  | invalidAddress .. => "InvalidAddressError"
  | invalidWrite .. => "InvalidWriteError"
  | inputExhausted _ => "InputExhaustedError"
  | endOfStream _ => "EndOfStreamError"
  | channelClosed _ => "ChannelClosedError"
  | badProgram _ => "ProgramFormatError"
  | badColor _ | badTurn _ => "RobotCommandError"
  | terminated .. | networkShape .. | nothingToSearch | noOutput => "VmError"
  | device _ => "Error"
  | unreadable why => why.kind

/-- A short name for the cause, the same for all faults with that cause. A device's own failure has
none. -/
def code? : Fault → Option String
  | unknownOpcode .. => "unknown_opcode"
  | unknownMode .. => "unknown_mode"
  | invalidAddress .. => "invalid_address"
  | invalidWrite .. => "invalid_write"
  | inputExhausted _ => "input_exhausted"
  | endOfStream _ => "end_of_stream"
  | channelClosed _ => "channel_closed"
  | badProgram _ => "invalid_program"
  | badColor _ | badTurn _ => "invalid_command"
  | terminated .. => "engine_terminated"
  | networkShape .. | nothingToSearch => "invalid_network"
  | noOutput => "no_output"
  | device _ => none
  | unreadable why => some why.code

end Fault

end WordMachine
