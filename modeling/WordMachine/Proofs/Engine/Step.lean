import WordMachine.Engine

/-!
# One step of an engine

An engine's step is the machine's own work followed by at most one exchange with the device. The
first part does not depend on the device at all. `Engine.demand` is that part, and
`Engine.step_eq_meet` puts the two together again, so that statements about several devices, or
about a device that changes between two steps, need only look at the exchange.

What the caller is told settles what becomes of the engine: `Engine.agrees_step` reads its status and
its count off the turn.
-/

namespace WordMachine

variable {σ : Type}

/-- What a receive that is over means to the engine. -/
def Reply.ofLetter : Except Fault Int → Reply
  | .ok v => .value v
  | .error (.endOfStream source) => .endOfStream source
  | .error why => .fault why

/-- What is left of a step once the machine has done its part. -/
inductive Demand where
  | nothing (engine : Engine) (answer : Except Fault (Option Ending))
  | input (engine : Engine) (pending : Pending)
  | output (engine : Engine) (value : Word)

/-- The exchange with the device that completes a step. -/
def Demand.meet (d : Device σ) (s : σ) : Demand → Engine × σ × Turn (Option Ending)
  | nothing e answer => (e, s, .answered answer)
  | input e pending =>
    ((e.resume pending (d.request s).1).1, (d.request s).2, (e.resume pending (d.request s).1).2)
  | output e value =>
    ((e.settle (d.emit value.toInt s).1).1, (d.emit value.toInt s).2,
      (e.settle (d.emit value.toInt s).1).2)

/-! ## The machine's part -/

namespace Machine

variable {m m' : Machine} {i : Instruction} {dest : Operand}

/-- Only an input instruction asks for a value, and it does nothing else. -/
theorem eq_of_execute_eq_request (h : m.execute i = (m', .request dest)) :
    i = .input dest ∧ m' = m := by
  cases i with
  | calculate c left right out => cases out <;> cases h
  | jumpIfTrue condition target =>
      simp only [execute] at h
      exact absurd h jump_ne_request
  | jumpIfFalse condition target =>
      simp only [execute] at h
      exact absurd h jump_ne_request
  | input out => cases h; exact ⟨rfl, rfl⟩
  | output source => cases h
  | adjustBase offset => cases h
  | halt => cases h
where
  /-- A jump asks for nothing. -/
  jump_ne_request {o : Opcode} {test : Word → Bool} {condition target : Operand} :
      m.jump o test condition target ≠ (m', .request dest) := by
    intro h
    simp only [jump] at h
    split at h
    · split at h <;> cases h
    · cases h

end Machine

namespace Engine

variable {d : Device σ} {e : Engine} {s : σ}

def demandOf (e : Engine) : Machine × Effect → Demand
  | (machine, .request dest) => .input (e.withMachine machine) ⟨machine.pc, dest⟩
  | (machine, .emit value) => .output (e.withMachine machine) value
  | (machine, effect) =>
    .nothing ((e.withMachine machine).complete effect).1 ((e.withMachine machine).complete effect).2

def executing (e : Engine) (i : Instruction) : Engine :=
  { e with status := .running }.note i

/-- The part of the next step that does not need the device. -/
def demand (e : Engine) : Demand :=
  match e.status.stop? with
  | some how => .nothing e (.error (.terminated e.name how))
  | none =>
    match e.machine.decode with
    | .error why => .nothing ({ e with status := .running }.fail why) (.error why)
    | .ok instruction => (e.executing instruction).demandOf (e.machine.execute instruction)

theorem demand_of_error {why : Fault} (hgoing : e.status.stop? = none)
    (hdecode : e.machine.decode = .error why) :
    e.demand = .nothing ({ e with status := .running }.fail why) (.error why) := by
  simp only [demand, hgoing, hdecode]

theorem demand_of_ok {i : Instruction} (hgoing : e.status.stop? = none)
    (hdecode : e.machine.decode = .ok i) :
    e.demand = (e.executing i).demandOf (e.machine.execute i) := by
  simp only [demand, hgoing, hdecode]

@[simp] theorem machine_note (e : Engine) (i : Instruction) : (e.note i).machine = e.machine := by
  unfold note
  split <;> rfl

@[simp] theorem machine_executing (e : Engine) (i : Instruction) :
    (e.executing i).machine = e.machine :=
  machine_note _ i

@[simp] theorem status_executing (e : Engine) (i : Instruction) :
    (e.executing i).status = .running := by
  unfold executing note
  split <;> rfl

@[simp] theorem steps_executing (e : Engine) (i : Instruction) :
    (e.executing i).steps = e.steps := by
  unfold executing note
  split <;> rfl

@[simp] theorem withMachine_executing (e : Engine) (i : Instruction) :
    (e.executing i).withMachine e.machine = e.executing i := by
  unfold executing note
  split <;> rfl

/-- Executing is what the machine does alone, followed by the exchange with the device. -/
theorem perform_eq_meet (d : Device σ) (e : Engine) (i : Instruction) (s : σ) :
    perform d e i s = (e.demandOf (e.machine.execute i)).meet d s := by
  rcases e with ⟨name, trace, machine, status, steps, events⟩
  rcases hexec : machine.execute i with ⟨machine', effect⟩
  cases effect <;> simp [perform, demandOf, withMachine, Demand.meet, hexec]

/-- A step is the machine's part and then the exchange with the device. -/
theorem step_eq_meet (d : Device σ) (e : Engine) (s : σ) : e.step d s = e.demand.meet d s := by
  unfold step demand
  cases e.status.stop? with
  | some how => rfl
  | none =>
      simp only
      cases e.machine.decode with
      | error why => rfl
      | ok i =>
          simp only
          rw [perform_eq_meet, machine_note]
          rfl

/-- An engine that wants a value is about to execute an input instruction, and has done nothing of it
yet. -/
theorem eq_of_demand_eq_input {e' : Engine} {pending : Pending} (h : e.demand = .input e' pending) :
    ∃ dest, e.status.stop? = none ∧ e.machine.decode = .ok (.input dest) ∧
      e' = e.executing (.input dest) ∧ pending = ⟨e.machine.pc, dest⟩ := by
  cases hgoing : e.status.stop? with
  | some how => simp [demand, hgoing] at h
  | none =>
      cases hdecode : e.machine.decode with
      | error why => simp [demand, hgoing, hdecode] at h
      | ok i =>
          rw [demand_of_ok hgoing hdecode] at h
          rcases hexec : e.machine.execute i with ⟨m, effect⟩
          rw [hexec] at h
          cases effect with
          | request dest =>
              rcases Machine.eq_of_execute_eq_request hexec with ⟨rfl, rfl⟩
              cases h
              exact ⟨dest, rfl, rfl, withMachine_executing e _, rfl⟩
          | _ => cases h

/-- A step waits only if it wants a value. -/
theorem demand_of_waiting {pending : Pending} (h : (e.step d s).2.2 = .waiting pending) :
    e.demand = .input (e.step d s).1 pending := by
  rw [step_eq_meet] at h ⊢
  cases hdemand : e.demand with
  | nothing e' answer => simp [hdemand, Demand.meet] at h
  | output e' value =>
      rw [hdemand] at h
      simp only [Demand.meet] at h
      cases hreaction : (d.emit value.toInt s).1 <;> simp [hreaction, settle] at h
  | input e' asked =>
      rw [hdemand] at h
      simp only [Demand.meet] at h ⊢
      cases hreply : (d.request s).1 <;> simp [hreply, resume] at h
      subst h
      rfl

/-- An engine that has stopped takes no step. -/
theorem step_of_stopped {how : Stop} (h : e.status.stop? = some how) :
    e.step d s = (e, s, .answered (.error (.terminated e.name how))) := by
  simp [step, h]

end Engine

/-! ## The caller's part -/

namespace Turn

def status : Turn (Option Ending) → Status
  | answered (.ok none) => .running
  | answered (.ok (some .halt)) => .halted
  | answered (.ok (some .endOfStream)) => .ended
  | answered (.error why) => .faulted why
  | waiting _ => .running

/-- The number of instructions that a step with the given turn completes. -/
def completed : Turn (Option Ending) → Nat
  | answered (.ok none) => 1
  | answered (.ok (some .halt)) => 1
  | _ => 0

end Turn

namespace Engine

variable {d : Device σ} {e : Engine} {s : σ}

/-- A step that ends in the given turn has brought the engine where the turn says. -/
structure Agrees (steps : Nat) (e : Engine) (turn : Turn (Option Ending)) : Prop where
  status_eq : e.status = turn.status
  steps_eq : e.steps = steps + turn.completed

/-- Status, count and announcement are set together, so none of them can be out of step with the
answer. -/
theorem agrees_complete (h : e.status = .running) (effect : Effect) :
    (e.complete effect).1.Agrees e.steps (.answered (e.complete effect).2) := by
  cases effect with
  | fail why => exact ⟨rfl, rfl⟩
  | halt => exact ⟨rfl, rfl⟩
  | proceed => exact ⟨h, rfl⟩
  | request dest => exact ⟨h, rfl⟩
  | emit value => exact ⟨h, rfl⟩

theorem agrees_resume (h : e.status = .running) (pending : Pending) (reply : Reply) :
    (e.resume pending reply).1.Agrees e.steps (e.resume pending reply).2 := by
  cases reply with
  | wait => exact ⟨h, rfl⟩
  | endOfStream source => exact ⟨rfl, rfl⟩
  | fault why => exact ⟨rfl, rfl⟩
  | value n =>
      exact agrees_complete
        (e := e.withMachine (e.machine.store .input pending.pc pending.dest (Word.ofInt n)).1) h _

theorem agrees_settle (h : e.status = .running) (reaction : Except Fault Unit) :
    (e.settle reaction).1.Agrees e.steps (e.settle reaction).2 := by
  cases reaction with
  | error why => exact ⟨rfl, rfl⟩
  | ok _ => exact ⟨h, rfl⟩

/-- The turn of a step settles what becomes of an engine that has not stopped. -/
theorem agrees_step (hgoing : e.status.stop? = none) (d : Device σ) (s : σ) :
    (e.step d s).1.Agrees e.steps (e.step d s).2.2 := by
  rw [step_eq_meet]
  cases hdecode : e.machine.decode with
  | error why =>
      rw [demand_of_error hgoing hdecode]
      exact ⟨rfl, rfl⟩
  | ok i =>
      rw [demand_of_ok hgoing hdecode, ← steps_executing e i]
      have hrunning := status_executing e i
      rcases e.machine.execute i with ⟨m, effect⟩
      cases effect with
      | request dest => exact agrees_resume (e := (e.executing i).withMachine m) hrunning _ _
      | emit value => exact agrees_settle (e := (e.executing i).withMachine m) hrunning _
      | proceed => exact agrees_complete (e := (e.executing i).withMachine m) hrunning _
      | halt => exact agrees_complete (e := (e.executing i).withMachine m) hrunning _
      | fail why => exact agrees_complete (e := (e.executing i).withMachine m) hrunning _

/-- An input instruction does not go on waiting when there is a letter. -/
theorem answered_resume (e : Engine) (pending : Pending) (letter : Except Fault Int) :
    ∃ answer, (e.resume pending (.ofLetter letter)).2 = .answered answer := by
  rcases letter with why | v
  · cases why <;> exact ⟨_, rfl⟩
  · exact ⟨_, rfl⟩

/-- An output is settled at once; only an input may leave the step waiting. -/
theorem answered_settle (e : Engine) (reaction : Except Fault Unit) :
    ∃ answer, (e.settle reaction).2 = .answered answer := by
  cases reaction <;> exact ⟨_, rfl⟩

/-- No step leaves an engine as if it had never begun. -/
theorem status_ne_idle (turn : Turn (Option Ending)) : turn.status ≠ .idle := by
  rcases turn with (why | (_ | (_ | _))) | pending <;> rintro ⟨⟩

/-- An engine that has been asked for a step is not idle any more. -/
theorem status_step_ne_idle (e : Engine) (d : Device σ) (s : σ) :
    (e.step d s).1.status ≠ .idle := by
  cases hstop : e.status.stop? with
  | some how =>
      rw [step_of_stopped hstop]
      intro hidle
      rw [hidle] at hstop
      cases hstop
  | none =>
      rw [(agrees_step hstop d s).status_eq]
      exact status_ne_idle _

end Engine

end WordMachine
