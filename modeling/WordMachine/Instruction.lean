import WordMachine.Word

/-!
# Instructions

An instruction is an opcode with its operands resolved: an operand either names a memory cell or is
a literal. `Instruction.text` is the disassembly.
-/

namespace WordMachine

/-- What an instruction word asks for in its two low decimal digits. -/
inductive Opcode where
  | add | multiply | input | output | jumpIfTrue | jumpIfFalse | lessThan | equals
  | adjustRelativeBase | halt
  deriving DecidableEq, Repr

namespace Opcode

def all : List Opcode :=
  [add, multiply, input, output, jumpIfTrue, jumpIfFalse, lessThan, equals, adjustRelativeBase, halt]

def number : Opcode → Nat
  | add => 1
  | multiply => 2
  | input => 3
  | output => 4
  | jumpIfTrue => 5
  | jumpIfFalse => 6
  | lessThan => 7
  | equals => 8
  | adjustRelativeBase => 9
  | halt => 99

def ofNumber? : Int → Option Opcode
  | 1 => some add
  | 2 => some multiply
  | 3 => some input
  | 4 => some output
  | 5 => some jumpIfTrue
  | 6 => some jumpIfFalse
  | 7 => some lessThan
  | 8 => some equals
  | 9 => some adjustRelativeBase
  | 99 => some halt
  | _ => none

def name : Opcode → String
  | add => "add"
  | multiply => "multiply"
  | input => "input"
  | output => "output"
  | jumpIfTrue => "jump-if-true"
  | jumpIfFalse => "jump-if-false"
  | lessThan => "less-than"
  | equals => "equals"
  | adjustRelativeBase => "adjust-relative-base"
  | halt => "halt"

def mnemonic (o : Opcode) : String :=
  o.name.map Char.toUpper

def arity : Opcode → Nat
  | add | multiply | lessThan | equals => 3
  | jumpIfTrue | jumpIfFalse => 2
  | input | output | adjustRelativeBase => 1
  | halt => 0

/-- The number of words an instruction takes, its opcode word included. -/
def width (o : Opcode) : Nat :=
  o.arity + 1

theorem ofNumber?_number (o : Opcode) : ofNumber? o.number = some o := by
  cases o <;> rfl

/-- No two opcodes share a number. -/
theorem eq_number_of_ofNumber? {n : Int} {o : Opcode} (h : ofNumber? n = some o) :
    n = o.number := by
  unfold ofNumber? at h
  split at h <;> first | (cases h; rfl) | cases h

end Opcode

inductive Operand where
  | indirect (address : Nat)
  -- A literal. It can be read but not written.
  | immediate (value : Word)
  deriving DecidableEq, Repr

/-- A cell is shown in brackets, a literal as it is. -/
def Operand.text : Operand → String
  | .indirect address => "[" ++ toString address ++ "]"
  | .immediate value => value.text

/-- The operations that compute one word from two. -/
inductive Calculation where
  | add | multiply | lessThan | equals
  deriving DecidableEq, Repr

namespace Calculation

/-- The result for two operands. Sums and products wrap around; a comparison gives one or zero. -/
def apply : Calculation → Word → Word → Word
  | add, a, b => a + b
  | multiply, a, b => a * b
  | lessThan, a, b => if a < b then 1 else 0
  | equals, a, b => if a = b then 1 else 0

def opcode : Calculation → Opcode
  | add => .add
  | multiply => .multiply
  | lessThan => .lessThan
  | equals => .equals

end Calculation

inductive Instruction where
  -- Stores the result of an operation on two operands.
  | calculate (operation : Calculation) (left right dest : Operand)
  -- Jumps to the target if the condition is non-zero.
  | jumpIfTrue (condition target : Operand)
  -- Jumps to the target if the condition is zero.
  | jumpIfFalse (condition target : Operand)
  | input (dest : Operand)
  | output (source : Operand)
  | adjustBase (offset : Operand)
  | halt
  deriving DecidableEq, Repr

namespace Instruction

def opcode : Instruction → Opcode
  | calculate operation .. => operation.opcode
  | jumpIfTrue .. => .jumpIfTrue
  | jumpIfFalse .. => .jumpIfFalse
  | input _ => .input
  | output _ => .output
  | adjustBase _ => .adjustRelativeBase
  | halt => .halt

/-- The operands in the order in which they stand after the opcode word. -/
def operands : Instruction → List Operand
  | calculate _ left right dest => [left, right, dest]
  | jumpIfTrue condition target => [condition, target]
  | jumpIfFalse condition target => [condition, target]
  | input dest => [dest]
  | output source => [source]
  | adjustBase offset => [offset]
  | halt => []

/-- Instructions are built with as many operands as their opcode takes, so disassembly never lacks
one. -/
theorem length_operands (i : Instruction) : i.operands.length = i.opcode.arity := by
  cases i with
  | calculate operation _ _ _ => cases operation <;> rfl
  | _ => rfl

/-- The disassembly: the mnemonic and, after a blank, the operands separated by commas. -/
def text (i : Instruction) : String :=
  match i.operands with
  | [] => i.opcode.mnemonic
  | operands => i.opcode.mnemonic ++ " " ++ ", ".intercalate (operands.map Operand.text)

end Instruction

end WordMachine
