import WordMachine.Proofs.Engine.Lifecycle

/-!
# The pieces of a step

A step is not made in one piece. What it does when it is called ends where it asks for a value, hands one
out or has executed its instruction; then it is suspended, whatever the instruction is. When it goes on,
an input instruction stores its value and an output instruction moves on, and the step is suspended once
more. Only its last piece counts the step, stops the engine and tells whoever watches. Other steps may be
called between two pieces.

`Engine.onset`, `Engine.accept`, `Engine.passOn` and `Engine.conclude` are the pieces. A step that is made
without a break is made of them: `Engine.demand_eq_onset`, `Engine.resume_ofLetter`,
`Engine.settle_eq_land`.
-/

namespace WordMachine

def Effect.result : Effect → Except Fault (Option Ending)
  | .fail why => .error why
  | .halt => .ok (some .halt)
  | _ => .ok none

/-- How far a step gets when it is called. -/
inductive Onset where
  -- The engine has stopped, or what it points to is no instruction.
  | answered (answer : Except Fault (Option Ending))
  | asks (pending : Pending)
  | emits (value : Word)
  | executed (result : Except Fault (Option Ending))

/-- A step that is suspended and waits for nothing. -/
inductive Midway where
  -- Its value has been handed out. The program counter still points to its instruction.
  | emitted (reaction : Except Fault Unit)
  -- Its instruction has been executed. The engine has taken no notice yet.
  | executed (result : Except Fault (Option Ending))

def Effect.onset (pc : Nat) : Effect → Onset
  | .request dest => .asks ⟨pc, dest⟩
  | .emit value => .emits value
  | effect => .executed effect.result

namespace Engine

/-- The first piece of a step. -/
def onset (e : Engine) : Engine × Onset :=
  match e.status.stop? with
  | some how => (e, .answered (.error (.terminated e.name how)))
  | none =>
    match e.machine.decode with
    | .error why => ({ e with status := .running }.fail why, .answered (.error why))
    | .ok instruction =>
      let (machine, effect) := e.machine.execute instruction
      ((e.executing instruction).withMachine machine, effect.onset machine.pc)

/-- Stores the value that an input instruction has been given, wherever the engine is by now. -/
def accept (e : Engine) (pending : Pending) :
    Except Fault Int → Engine × Except Fault (Option Ending)
  | .ok value =>
    let (machine, effect) :=
      e.machine.store .input pending.pc pending.dest (Word.ofInt value)
    (e.withMachine machine, effect.result)
  | .error (.endOfStream _) => (e, .ok (some .endOfStream))
  | .error why => (e, .error why)

/-- Moves on from an output instruction whose value has been taken. -/
def passOn (e : Engine) : Except Fault Unit → Engine × Except Fault (Option Ending)
  | .ok () => (e.withMachine (e.machine.skip .output), .ok none)
  | .error why => (e, .error why)

/-- The last piece of a step: the engine takes notice of what the instruction has come to. -/
def conclude (e : Engine) : Except Fault (Option Ending) → Engine
  | .error why => e.fail why
  | .ok (some .endOfStream) => e.finish .endOfStream
  | .ok (some .halt) => e.count.finish .halt
  | .ok none => e.count

/-- All that is left of a suspended step, without a break. -/
def land (e : Engine) : Midway → Engine × Except Fault (Option Ending)
  | .emitted reaction => ((e.passOn reaction).1.conclude (e.passOn reaction).2, (e.passOn reaction).2)
  | .executed result => (e.conclude result, result)

/-! ## Steps without a break -/

variable {e e' : Engine}

theorem complete_eq_conclude (e : Engine) (effect : Effect) :
    e.complete effect = (e.conclude effect.result, effect.result) := by
  cases effect <;> rfl

/-- An input instruction that is given its value stores it, and then the engine takes notice. -/
theorem resume_ofLetter (e : Engine) (pending : Pending) (letter : Except Fault Int) :
    e.resume pending (.ofLetter letter) =
      ((e.accept pending letter).1.conclude (e.accept pending letter).2,
        .answered (e.accept pending letter).2) := by
  rcases letter with why | value
  · cases why <;> rfl
  · have hcomplete := (e.accept pending (.ok value)).1.complete_eq_conclude
      (e.machine.store .input pending.pc pending.dest (Word.ofInt value)).2
    exact congrArg (fun r => (r.1, Turn.answered r.2)) hcomplete

theorem settle_eq_land (e : Engine) (reaction : Except Fault Unit) :
    e.settle reaction =
      ((e.land (.emitted reaction)).1, .answered (e.land (.emitted reaction)).2) := by
  cases reaction <;> rfl

end Engine

/-- What a step still wants that has got so far, if it goes on without a break. -/
def Onset.demand (e : Engine) : Onset → Demand
  | answered answer => .nothing e answer
  | asks pending => .input e pending
  | emits value => .output e value
  | executed result => .nothing (e.conclude result) result

namespace Engine

variable {e e' : Engine}

theorem demandOf_eq_onset (e : Engine) (r : Machine × Effect) :
    e.demandOf r = (r.2.onset r.1.pc).demand (e.withMachine r.1) := by
  rcases r with ⟨machine, effect⟩
  cases effect <;> rfl

/-- The device's part of a step comes after its first piece, and only the engine's notice may come
before it. -/
theorem demand_eq_onset (e : Engine) : e.demand = e.onset.2.demand e.onset.1 := by
  unfold demand onset
  cases e.status.stop? with
  | some how => rfl
  | none =>
      cases e.machine.decode with
      | error why => rfl
      | ok i => exact demandOf_eq_onset _ _

/-! ## Engines in the middle of a step -/

/-- An engine that has asked for input asks for it again. -/
theorem demand_of_demand_eq_input {pending : Pending} (h : e.demand = .input e' pending) :
    ∃ e'', e'.demand = .input e'' pending := by
  rcases eq_of_demand_eq_input h with ⟨dest, -, hdecode, rfl, rfl⟩
  rw [← machine_executing e (.input dest)] at hdecode ⊢
  exact ⟨_, demand_of_ok (e.going_executing _) hdecode⟩

/-- A step that is suspended has left the engine running. -/
theorem running_of_onset (h : ∀ answer, e.onset.2 ≠ .answered answer) :
    e.status.stop? = none ∧ e.onset.1.status = .running ∧ e.onset.1.notices = e.notices := by
  unfold onset at h ⊢
  cases hstop : e.status.stop? with
  | some how =>
      simp only [hstop] at h
      exact absurd rfl (h _)
  | none =>
      simp only [hstop] at h ⊢
      cases hdecode : e.machine.decode with
      | error why =>
          simp only [hdecode] at h
          exact absurd rfl (h _)
      | ok i => exact ⟨trivial, e.status_executing i, e.notices_executing i⟩

/-- Storing a value or moving on tells nobody anything. -/
theorem accept_untold (e : Engine) (pending : Pending) (letter : Except Fault Int) :
    (e.accept pending letter).1.status = e.status ∧
      (e.accept pending letter).1.notices = e.notices := by
  rcases letter with why | value
  · cases why <;> exact ⟨rfl, rfl⟩
  · exact ⟨rfl, rfl⟩

theorem passOn_untold (e : Engine) (reaction : Except Fault Unit) :
    (e.passOn reaction).1.status = e.status ∧ (e.passOn reaction).1.notices = e.notices := by
  cases reaction <;> exact ⟨rfl, rfl⟩

end Engine

end WordMachine
