import WordMachine.Decoding

/-!
# The machine

A machine is a memory with a program counter and a relative base. `execute` carries one instruction
out as far as the machine alone can: an input instruction ends with a request for a value, an output
instruction with a value to emit, and the machine goes on behind them when the request has been
answered (`store`) or the value accepted (`skip`).
-/

namespace WordMachine

structure Machine where
  memory : Memory
  pc : Nat := 0
  -- What relative addresses are counted from.
  base : Word := 0

inductive Effect where
  -- It is complete.
  | proceed
  -- It is complete, and the last one.
  | halt
  | request (dest : Operand)
  | emit (value : Word)
  | fail (why : Fault)
  deriving DecidableEq, Repr

/-- The value of an operand. Reading a cell makes room for it. -/
def Memory.value (m : Memory) : Operand → Word × Memory
  | .immediate word => (word, m)
  | .indirect address => m.read address

namespace Machine

def load (image : Image) : Machine :=
  { memory := Memory.load image }

def fetch (m : Machine) : Fetched :=
  { pc := m.pc
    word := m.memory.peek m.pc
    argument := fun k => m.memory.peek (m.pc + 1 + k)
    base := m.base }

def decode (m : Machine) : Except Fault Instruction :=
  m.fetch.decode

def skip (m : Machine) (opcode : Opcode) : Machine :=
  { m with pc := m.pc + opcode.width }

/-- Writes the result of the instruction at `pc` and moves on behind it. -/
def store (m : Machine) (opcode : Opcode) (pc : Nat) (dest : Operand) (word : Word) :
    Machine × Effect :=
  match dest with
  | .immediate literal => (m, .fail (.invalidWrite literal.toInt opcode.number pc))
  | .indirect address =>
    ({ m with memory := m.memory.write address word, pc := m.pc + opcode.width }, .proceed)

/-- Stores the result of an operation. Both operands are read before the destination is looked at. -/
def calculate (m : Machine) (operation : Calculation) (left right dest : Operand) :
    Machine × Effect :=
  match m with
  | ⟨memory, pc, base⟩ =>
    -- The left operand is read first: what it makes room for counts for the right one.
    let (a, memory) := memory.value left
    let (b, memory) := memory.value right
    store ⟨memory, pc, base⟩ operation.opcode pc dest (operation.apply a b)

/-- Jumps if the condition's value passes the test. The target is read only then. -/
def jump (m : Machine) (opcode : Opcode) (test : Word → Bool) (condition target : Operand) :
    Machine × Effect :=
  match m with
  | ⟨memory, pc, base⟩ =>
    let (value, memory) := memory.value condition
    if test value then
      -- Only a jump that is taken can leave the address space.
      let (value, memory) := memory.value target
      match address value.toInt opcode.number pc with
      | .ok next => (⟨memory, next, base⟩, .proceed)
      | .error why => (⟨memory, pc, base⟩, .fail why)
    else (skip ⟨memory, pc, base⟩ opcode, .proceed)

/-- Carries an instruction out as far as the machine alone can. -/
def execute (m : Machine) : Instruction → Machine × Effect
  | .calculate operation left right dest => m.calculate operation left right dest
  | .jumpIfTrue condition target => m.jump .jumpIfTrue (· ≠ 0) condition target
  | .jumpIfFalse condition target => m.jump .jumpIfFalse (· = 0) condition target
  -- Registers stay as they are until the value has come.
  | .input dest => (m, .request dest)
  | .output source =>
    match m with
    | ⟨memory, pc, base⟩ =>
      let (value, memory) := memory.value source
      (⟨memory, pc, base⟩, .emit value)
  | .adjustBase offset =>
    match m with
    | ⟨memory, pc, base⟩ =>
      let (value, memory) := memory.value offset
      (skip ⟨memory, pc, base + value⟩ .adjustRelativeBase, .proceed)
  | .halt => (m, .halt)

end Machine

end WordMachine
