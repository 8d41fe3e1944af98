import Mathlib.Logic.Function.Basic
import WordMachine.Device
import WordMachine.Engine

/-!
# The flat machine

The reference that an engine is measured against: a program counter, a relative base and a memory
that is one total function from addresses to words. Its rules are the rows of the opcode table. All
arithmetic is on unbounded integers, and a result wraps when it is stored.

`Flat.offer` is one row of the table: what the next instruction amounts to, or why it fails.
`Flat.step` carries it out on a device.
-/

namespace WordMachine

/-- Registers and a memory without limits. -/
structure Flat where
  memory : Nat → Word
  pc : Nat
  -- What relative addresses are counted from.
  base : Word

namespace Flat

/-- What the next instruction amounts to. -/
inductive Offer where
  -- The machine goes on as the given one.
  | go (next : Flat)
  | halt
  -- A value for the destination is needed.
  | ask (dest : Operand)
  -- A value is for the outside; once it is accepted, the machine goes on as the given one.
  | tell (value : Word) (next : Flat)

def load (values : List Int) : Flat :=
  { memory := fun a => Word.ofInt (values.getD a 0), pc := 0, base := 0 }

/-! ## Operands -/

def word (m : Flat) : Int :=
  (m.memory m.pc).toInt

def opcode (m : Flat) : Int :=
  m.word.tmod 100

/-- The mode digit of operand number `k`, counted from zero: the hundreds for the first one. -/
def mode (m : Flat) (k : Nat) : Int :=
  (m.word.tdiv (Nat.pow 10 (k + 2))).tmod 10

/-- A value as an address. Addresses range from `0` to `2 ^ 32 - 1`. -/
def address (m : Flat) (value : Int) : Except Fault Nat :=
  if 0 ≤ value ∧ value ≤ 4294967295 then .ok value.toNat
  else .error (.invalidAddress value m.opcode m.pc)

/-- Operand number `k`: position mode, immediate mode or relative mode. -/
def operand (m : Flat) (k : Nat) : Except Fault Operand :=
  let argument := m.memory (m.pc + k + 1)
  match m.mode k with
  | 0 => (m.address argument.toInt).map .indirect
  | 1 => .ok (.immediate argument)
  | 2 => (m.address (argument.toInt + m.base.toInt)).map .indirect
  | digit => .error (.unknownMode digit m.opcode m.pc)

def value (m : Flat) : Operand → Int
  | .indirect a => (m.memory a).toInt
  | .immediate w => w.toInt

/-! ## Rules -/

/-- The machine with a result stored and an instruction of the given width behind it. -/
def store (m : Flat) (width : Nat) (dest : Operand) (result : Int) : Except Fault Flat :=
  match dest with
  | .indirect a =>
    .ok { m with memory := Function.update m.memory a (Word.ofInt result), pc := m.pc + width }
  | .immediate w => .error (.invalidWrite w.toInt m.opcode m.pc)

/-- Two operands are combined into a third. -/
def binary (m : Flat) (combine : Int → Int → Int) : Except Fault Offer := do
  let left ← m.operand 0
  let right ← m.operand 1
  let dest ← m.operand 2
  return .go (← m.store 4 dest (combine (m.value left) (m.value right)))

/-- The target is the next program counter if the condition passes the test. -/
def jump (m : Flat) (test : Int → Bool) (condition target : Operand) : Except Fault Offer :=
  if test (m.value condition) then
    (m.address (m.value target)).map fun next => .go { m with pc := next }
  else .ok (.go { m with pc := m.pc + 3 })

def branch (m : Flat) (test : Int → Bool) : Except Fault Offer := do
  let condition ← m.operand 0
  let target ← m.operand 1
  m.jump test condition target

def offer (m : Flat) : Except Fault Offer :=
  match m.opcode with
  | 1 => m.binary fun a b => a + b
  | 2 => m.binary fun a b => a * b
  | 3 => return .ask (← m.operand 0)
  | 4 => do
    let source ← m.operand 0
    return .tell (Word.ofInt (m.value source)) { m with pc := m.pc + 2 }
  | 5 => m.branch fun a => a ≠ 0
  | 6 => m.branch fun a => a = 0
  | 7 => m.binary fun a b => if a < b then 1 else 0
  | 8 => m.binary fun a b => if a = b then 1 else 0
  | 9 => do
    let offset ← m.operand 0
    return .go { m with base := Word.ofInt (m.base.toInt + m.value offset), pc := m.pc + 2 }
  | 99 => return .halt
  | other => .error (.unknownOpcode other m.pc)

/-! ## Steps -/

/-- The machine after it has been replied to a request for a value. -/
def reply (m : Flat) (pending : Pending) : Reply → Flat × Turn (Option Ending)
  | .wait => (m, .waiting pending)
  | .endOfStream _ => (m, .answered (.ok (some .endOfStream)))
  | .fault why => (m, .answered (.error why))
  | .value value =>
    match m.store 2 pending.dest value with
    | .ok next => (next, .answered (.ok none))
    | .error why => (m, .answered (.error why))

def step {σ : Type} (d : Device σ) (m : Flat) (s : σ) : Flat × σ × Turn (Option Ending) :=
  match m.offer with
  | .error why => (m, s, .answered (.error why))
  | .ok .halt => (m, s, .answered (.ok (some .halt)))
  | .ok (.go next) => (next, s, .answered (.ok none))
  | .ok (.ask dest) =>
    match d.request s with
    | (answer, s) =>
      match m.reply ⟨m.pc, dest⟩ answer with
      | (m, turn) => (m, s, turn)
  | .ok (.tell value next) =>
    match d.emit value.toInt s with
    | (.ok (), s) => (next, s, .answered (.ok none))
    | (.error why, s) => (m, s, .answered (.error why))

end Flat

/-! ## Runs -/

/-- What the step with the given number comes to, counted from zero, if each step before it leaves the
machine going. It serves engines as well. -/
def stepAt {σ α : Type} (step : α → σ → α × σ × Turn (Option Ending)) :
    Nat → α → σ → Option (α × σ × Turn (Option Ending))
  | 0, a, s => some (step a s)
  | k + 1, a, s =>
    match step a s with
    | (a, s, .answered (.ok none)) => stepAt step k a s
    | _ => none

end WordMachine
