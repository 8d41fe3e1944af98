import WordMachine.Fault
import WordMachine.Instruction
import WordMachine.Memory

/-!
# Decoding

An instruction word holds its opcode in the two low decimal digits and one addressing mode digit per
operand above them, the first operand's in the hundreds. Decoding turns the word and the words after
it into an `Instruction`, or into the fault of the leftmost bad operand. It depends on nothing else,
and changes nothing.
-/

namespace WordMachine

/-- How an operand word names its value. -/
inductive Mode where
  -- The word is an address.
  | position
  -- The word is the value.
  | immediate
  -- The word is an address, counted from the relative base.
  | relative
  deriving DecidableEq, Repr

def Mode.ofDigit? : Int → Option Mode
  | 0 => some .position
  | 1 => some .immediate
  | 2 => some .relative
  | _ => none

/-- The opcode digits of an integer that is taken for an instruction. They carry its sign. -/
def opcodeDigits (value : Int) : Int :=
  value.tmod 100

/-- The mode digit of operand number `k`, counted from zero. It carries the sign of the integer. -/
def modeDigit (value : Int) (k : Nat) : Int :=
  (value.tdiv (Nat.pow 10 (k + 2))).tmod 10

/-- A value as an address, if it lies in the address space. -/
def address (value : Int) (opcode : Int) (pc : Int) : Except Fault Nat :=
  if 0 ≤ value ∧ value ≤ Memory.maxAddress then .ok value.toNat
  else .error (.invalidAddress value opcode pc)

/-- What an instruction is decoded from. -/
structure Fetched where
  pc : Int
  word : Word
  -- The words that follow it, counted from zero.
  argument : Nat → Word
  base : Word

namespace Fetched

def opcode (f : Fetched) : Int :=
  opcodeDigits f.word.toInt

/-- Operand number `k`, as its mode digit says. A relative address is summed without wrapping. -/
def operand (f : Fetched) (k : Nat) : Except Fault Operand :=
  let digit := modeDigit f.word.toInt k
  let value := f.argument k
  match Mode.ofDigit? digit with
  | none => .error (.unknownMode digit f.opcode f.pc)
  | some .immediate => .ok (.immediate value)
  | some .position => (address value.toInt f.opcode f.pc).map .indirect
  -- The sum of two words may be no word.
  | some .relative => (address (value.toInt + f.base.toInt) f.opcode f.pc).map .indirect

def calculation (f : Fetched) (operation : Calculation) : Except Fault Instruction := do
  let left ← f.operand 0
  let right ← f.operand 1
  let dest ← f.operand 2
  return .calculate operation left right dest

/-- The instruction with the given opcode, whatever the opcode digits say. Operands are resolved
from left to right. -/
def decodeAs (f : Fetched) : Opcode → Except Fault Instruction
  | .add => f.calculation .add
  | .multiply => f.calculation .multiply
  | .lessThan => f.calculation .lessThan
  | .equals => f.calculation .equals
  | .jumpIfTrue => do
    let condition ← f.operand 0
    let target ← f.operand 1
    return .jumpIfTrue condition target
  | .jumpIfFalse => do
    let condition ← f.operand 0
    let target ← f.operand 1
    return .jumpIfFalse condition target
  | .input => (f.operand 0).map .input
  | .output => (f.operand 0).map .output
  | .adjustRelativeBase => (f.operand 0).map .adjustBase
  | .halt => .ok .halt

def decode (f : Fetched) : Except Fault Instruction :=
  match Opcode.ofNumber? f.opcode with
  | none => .error (.unknownOpcode f.opcode f.pc)
  | some opcode => f.decodeAs opcode

end Fetched

end WordMachine
