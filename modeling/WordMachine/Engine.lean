import WordMachine.Device
import WordMachine.Machine

/-!
# Engines

An engine drives a machine that is attached to a device: it decodes an instruction, executes it,
takes its input from the device or hands its output over, and keeps a record of what happened.
`step` is one instruction, `run` goes on until the engine stops. An instruction whose device has no
answer yet is left waiting; `resume` completes it when the answer has come.
-/

namespace WordMachine

inductive Ending where
  | halt
  | endOfStream
  deriving DecidableEq, Repr

def Ending.code : Ending → Nat
  | .halt => 0
  | .endOfStream => 1

structure RunResult where
  ending : Ending
  steps : Nat
  deriving DecidableEq, Repr

inductive Status where
  -- Never asked for a step.
  | idle
  -- Between two steps, or in one.
  | running
  | halted
  | ended
  | faulted (why : Fault)
  deriving DecidableEq, Repr

namespace Status

def stop? : Status → Option Stop
  | idle | running => none
  | halted => some .halted
  | ended => some .ended
  | faulted _ => some .faulted

def text : Status → String
  | idle => "idle"
  | running => "running"
  | halted => Stop.halted.text
  | ended => Stop.ended.text
  | faulted _ => Stop.faulted.text

end Status

inductive Event where
  -- A run was started on a buffer of this length.
  | runStarted (length : Nat)
  -- A traced instruction is about to be executed.
  | executing (pc : Nat) (instruction : Instruction) (base : Word)
  | stopped (result : RunResult)
  | faulted (pc : Nat) (why : Fault)
  deriving DecidableEq, Repr

/-- What whoever watches an engine is told when it stops. -/
def Event.notice? : Event → Option (Except Fault RunResult)
  | .stopped result => some (.ok result)
  | .faulted _ why => some (.error why)
  | _ => none

structure Engine where
  -- The name that the record is kept under.
  name : String
  trace : Bool := false
  machine : Machine
  status : Status := .idle
  steps : Nat := 0
  -- What happened, oldest first.
  events : Array Event := #[]

/-- An input instruction that waits for its value. -/
structure Pending where
  pc : Nat
  dest : Operand
  deriving DecidableEq, Repr

/-- What a call comes to. -/
inductive Turn (α : Type) where
  | answered (answer : Except Fault α)
  | waiting (pending : Pending)
  deriving Repr

def Turn.answer? {α : Type} : Turn α → Option (Except Fault α)
  | answered answer => some answer
  | waiting _ => none

namespace Engine

variable {σ : Type}

def load (name : String) (image : Image) (trace : Bool := false) : Engine :=
  { name, trace, machine := Machine.load image }

def fail (e : Engine) (why : Fault) : Engine :=
  { e with
    status := .faulted why
    events := e.events.push (.faulted e.machine.pc why) }

def finish (e : Engine) (ending : Ending) : Engine :=
  { e with
    status := match ending with
      | .halt => .halted
      | .endOfStream => .ended
    events := e.events.push (.stopped ⟨ending, e.steps⟩) }

def count (e : Engine) : Engine :=
  { e with steps := e.steps + 1 }

/-- Records an instruction that is about to be executed, if the engine is traced. -/
def note (e : Engine) (instruction : Instruction) : Engine :=
  if e.trace then
    { e with events := e.events.push (.executing e.machine.pc instruction e.machine.base) }
  else e

def withMachine (e : Engine) (machine : Machine) : Engine :=
  { e with machine }

def complete (e : Engine) : Effect → Engine × Except Fault (Option Ending)
  | .fail why => (e.fail why, .error why)
  | .halt => (e.count.finish .halt, .ok (some .halt))
  | _ => (e.count, .ok none)

/-- Completes an input instruction with the device's reply. No reply leaves it waiting; the end of
the stream stops the engine without completing the instruction. -/
def resume (e : Engine) (pending : Pending) : Reply → Engine × Turn (Option Ending)
  | .wait => (e, .waiting pending)
  | .endOfStream _ => (e.finish .endOfStream, .answered (.ok (some .endOfStream)))
  | .fault why => (e.fail why, .answered (.error why))
  | .value value =>
    match e with
    | ⟨name, trace, machine, status, steps, events⟩ =>
      -- The machine is taken out of the engine, so that its memory is changed in place.
      let (machine, effect) := machine.store .input pending.pc pending.dest (Word.ofInt value)
      let (e, answer) := complete ⟨name, trace, machine, status, steps, events⟩ effect
      (e, .answered answer)

/-- Completes an output instruction with the device's reaction. -/
def settle (e : Engine) : Except Fault Unit → Engine × Turn (Option Ending)
  | .error why => (e.fail why, .answered (.error why))
  | .ok () => ((e.withMachine (e.machine.skip .output)).count, .answered (.ok none))

def perform (d : Device σ) (e : Engine) (instruction : Instruction) (s : σ) :
    Engine × σ × Turn (Option Ending) :=
  match e with
  | ⟨name, trace, machine, status, steps, events⟩ =>
  -- The machine alone first; the device is only asked for what it leaves open.
  let (machine, effect) := machine.execute instruction
  let e : Engine := ⟨name, trace, machine, status, steps, events⟩
  match effect with
  | .request dest =>
    let (reply, s) := d.request s
    let (e, turn) := e.resume ⟨e.machine.pc, dest⟩ reply
    (e, s, turn)
  | .emit value =>
    let (reaction, s) := d.emit value.toInt s
    let (e, turn) := e.settle reaction
    (e, s, turn)
  | effect =>
    let (e, answer) := e.complete effect
    (e, s, .answered answer)

/-- Executes one instruction. An engine that has stopped refuses. -/
def step (d : Device σ) (e : Engine) (s : σ) : Engine × σ × Turn (Option Ending) :=
  match e.status.stop? with
  | some how => (e, s, .answered (.error (.terminated e.name how)))
  | none =>
    let e := { e with status := .running }
    match e.machine.decode with
    | .error why => (e.fail why, s, .answered (.error why))
    | .ok instruction => perform d (e.note instruction) instruction s

/-- Goes on after a step of a run. -/
def runOn (d : Device σ) : Nat → Engine × σ × Turn (Option Ending) →
    Option (Engine × σ × Turn RunResult)
  | _, (e, s, .waiting pending) => some (e, s, .waiting pending)
  | _, (e, s, .answered (.error why)) => some (e, s, .answered (.error why))
  | _, (e, s, .answered (.ok (some ending))) => some (e, s, .answered (.ok ⟨ending, e.steps⟩))
  -- Between two steps: go on if there is fuel for another one.
  | 0, (_, _, .answered (.ok none)) => none
  | fuel + 1, (e, s, .answered (.ok none)) => runOn d fuel (step d e s)

def begin (e : Engine) : Engine :=
  { e with events := e.events.push (.runStarted e.machine.memory.length) }

/-- Executes instructions until the engine stops or waits. There is no answer if it does neither
within `fuel + 1` steps. -/
def run (d : Device σ) (fuel : Nat) (e : Engine) (s : σ) : Option (Engine × σ × Turn RunResult) :=
  runOn d fuel (step d e.begin s)

def outcome? (e : Engine) : Option (Except Fault RunResult) :=
  match e.status with
  | .idle | .running => none
  | .halted => some (.ok ⟨.halt, e.steps⟩)
  | .ended => some (.ok ⟨.endOfStream, e.steps⟩)
  | .faulted why => some (.error why)

/-- What whoever watches the engine has been told, in order. -/
def notices (e : Engine) : List (Except Fault RunResult) :=
  e.events.toList.filterMap Event.notice?

end Engine

end WordMachine
