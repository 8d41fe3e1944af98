import WordMachine.Proofs.Engine.Step

/-!
# Engines and their records

What an engine has recorded, and whether it traces, has no influence on what it does. `Engine.Like`
relates engines that differ in nothing else, and every step keeps it.
-/

namespace WordMachine

namespace Engine

/-- The two engines differ at most in what they record. -/
structure Like (e e' : Engine) : Prop where
  name_eq : e'.name = e.name
  machine_eq : e'.machine = e.machine
  status_eq : e'.status = e.status
  steps_eq : e'.steps = e.steps

variable {σ : Type} {e e' e'' : Engine}

theorem Like.symm (h : e.Like e') : e'.Like e :=
  ⟨h.name_eq.symm, h.machine_eq.symm, h.status_eq.symm, h.steps_eq.symm⟩

theorem Like.trans (h : e.Like e') (h' : e'.Like e'') : e.Like e'' where
  name_eq := h'.name_eq.trans h.name_eq
  machine_eq := h'.machine_eq.trans h.machine_eq
  status_eq := h'.status_eq.trans h.status_eq
  steps_eq := h'.steps_eq.trans h.steps_eq

/-- Beginning only changes the status from idle to running, which no step can tell. -/
theorem like_begin (e : Engine) : e.Like e.begin :=
  ⟨rfl, rfl, rfl, rfl⟩

theorem Like.outcome?_eq (h : e.Like e') : e'.outcome? = e.outcome? := by
  simp only [outcome?, h.status_eq, h.steps_eq]

theorem Like.running (h : e.Like e') :
    ({ e with status := .running } : Engine).Like { e' with status := .running } :=
  ⟨h.name_eq, h.machine_eq, rfl, h.steps_eq⟩

theorem like_executing (e : Engine) (i : Instruction) :
    ({ e with status := .running } : Engine).Like (e.executing i) where
  name_eq := by
    unfold executing note
    split <;> rfl
  machine_eq := machine_executing e i
  status_eq := status_executing e i
  steps_eq := steps_executing e i

/-- Records differ by traced instructions at most, and are left out of account. -/
theorem Like.executing (h : e.Like e') (i : Instruction) : (e.executing i).Like (e'.executing i) where
  name_eq := by
    unfold Engine.executing note
    split <;> split <;> exact h.name_eq
  machine_eq := by rw [machine_executing, machine_executing, h.machine_eq]
  status_eq := by rw [status_executing, status_executing]
  steps_eq := by rw [steps_executing, steps_executing, h.steps_eq]

theorem Like.withMachine (h : e.Like e') (m : Machine) : (e.withMachine m).Like (e'.withMachine m) :=
  ⟨h.name_eq, rfl, h.status_eq, h.steps_eq⟩

theorem Like.fail (h : e.Like e') (why : Fault) : (e.fail why).Like (e'.fail why) :=
  ⟨h.name_eq, h.machine_eq, rfl, h.steps_eq⟩

theorem Like.finish (h : e.Like e') (ending : Ending) : (e.finish ending).Like (e'.finish ending) :=
  ⟨h.name_eq, h.machine_eq, rfl, h.steps_eq⟩

theorem Like.count (h : e.Like e') : e.count.Like e'.count :=
  ⟨h.name_eq, h.machine_eq, h.status_eq, congrArg Nat.succ h.steps_eq⟩

theorem Like.complete (h : e.Like e') (effect : Effect) :
    (e.complete effect).1.Like (e'.complete effect).1 ∧
      (e'.complete effect).2 = (e.complete effect).2 := by
  cases effect with
  | fail why => exact ⟨h.fail why, rfl⟩
  | halt => exact ⟨h.count.finish .halt, rfl⟩
  | _ => exact ⟨h.count, rfl⟩

theorem Like.resume (h : e.Like e') (pending : Pending) (reply : Reply) :
    (e.resume pending reply).1.Like (e'.resume pending reply).1 ∧
      (e'.resume pending reply).2 = (e.resume pending reply).2 := by
  cases reply with
  | wait => exact ⟨h, rfl⟩
  | endOfStream source => exact ⟨h.finish .endOfStream, rfl⟩
  | fault why => exact ⟨h.fail why, rfl⟩
  | value v =>
      rcases e with ⟨name, trace, machine, status, steps, events⟩
      rcases e' with ⟨name', trace', machine', status', steps', events'⟩
      have hmachine : machine' = machine := h.machine_eq
      subst hmachine
      let stored := machine'.store .input pending.pc pending.dest (Word.ofInt v)
      have hcomplete := (h.withMachine stored.1).complete stored.2
      exact ⟨hcomplete.1, congrArg Turn.answered hcomplete.2⟩

theorem Like.settle (h : e.Like e') (reaction : Except Fault Unit) :
    (e.settle reaction).1.Like (e'.settle reaction).1 ∧
      (e'.settle reaction).2 = (e.settle reaction).2 := by
  cases reaction with
  | error why => exact ⟨h.fail why, rfl⟩
  | ok _ =>
      have hskip := (h.withMachine (e.machine.skip .output)).count
      refine ⟨?_, rfl⟩
      simp only [Engine.settle, h.machine_eq]
      exact hskip

end Engine

/-- The two engines want the same, and differ at most in what they record. -/
inductive Demand.Like : Demand → Demand → Prop where
  | nothing {e e' : Engine} (like : e.Like e') (answer : Except Fault (Option Ending)) :
      Like (.nothing e answer) (.nothing e' answer)
  | input {e e' : Engine} (like : e.Like e') (pending : Pending) :
      Like (.input e pending) (.input e' pending)
  | output {e e' : Engine} (like : e.Like e') (value : Word) :
      Like (.output e value) (.output e' value)

namespace Demand

variable {wanted : Demand} {e : Engine}

theorem Like.of_nothing {answer : Except Fault (Option Ending)} (h : wanted.Like (.nothing e answer)) :
    ∃ e', wanted = .nothing e' answer ∧ e'.Like e := by
  cases h with
  | nothing like => exact ⟨_, rfl, like⟩

/-- Two engines that are alike ask for the same input, and are alike when they ask. -/
theorem Like.of_input {pending : Pending} (h : wanted.Like (.input e pending)) :
    ∃ e', wanted = .input e' pending ∧ e'.Like e := by
  cases h with
  | input like => exact ⟨_, rfl, like⟩

theorem Like.of_output {value : Word} (h : wanted.Like (.output e value)) :
    ∃ e', wanted = .output e' value ∧ e'.Like e := by
  cases h with
  | output like => exact ⟨_, rfl, like⟩

end Demand

namespace Engine

variable {σ : Type} {e e' : Engine}

/-- Engines that differ in their records make the same demands. All that follows for steps and runs
rests on this. -/
theorem Like.demand (h : e.Like e') : e.demand.Like e'.demand := by
  cases hstop : e.status.stop? with
  | some how =>
      have hstop' : e'.status.stop? = some how := by rw [h.status_eq, hstop]
      simp only [Engine.demand, hstop, hstop', h.name_eq]
      exact .nothing h _
  | none =>
      have hstop' : e'.status.stop? = none := by rw [h.status_eq, hstop]
      cases hdecode : e.machine.decode with
      | error why =>
          have hdecode' : e'.machine.decode = .error why := by rw [h.machine_eq, hdecode]
          have hlike : ({ e with status := .running }.fail why).Like
              ({ e' with status := .running }.fail why) :=
            ⟨h.name_eq, h.machine_eq, rfl, h.steps_eq⟩
          rw [demand_of_error hstop hdecode, demand_of_error hstop' hdecode']
          exact .nothing hlike _
      | ok i =>
          have hdecode' : e'.machine.decode = .ok i := by rw [h.machine_eq, hdecode]
          rw [demand_of_ok hstop hdecode, demand_of_ok hstop' hdecode', h.machine_eq]
          rcases e.machine.execute i with ⟨m, effect⟩
          have hlike := (h.executing i).withMachine m
          have hcomplete := hlike.complete effect
          cases effect with
          | request dest => exact .input hlike _
          | emit value => exact .output hlike _
          | proceed => exact .nothing hcomplete.1 _
          | halt => exact .nothing hcomplete.1 _
          | fail why => exact .nothing hcomplete.1 _

/-- An engine that has not stopped wants the same whether it was asked for a step before or not. -/
theorem demand_running (h : e.status.stop? = none) :
    ({ e with status := .running } : Engine).demand = e.demand := by
  have hrunning : ({ e with status := .running } : Engine).status.stop? = none := rfl
  simp only [demand, h, hrunning]
  rfl

/-- A step is the same, whatever has been recorded before. -/
theorem Like.step (h : e.Like e') (d : Device σ) (s : σ) :
    (e.step d s).1.Like (e'.step d s).1 ∧ (e'.step d s).2 = (e.step d s).2 := by
  have hdemand := h.demand
  rw [step_eq_meet, step_eq_meet]
  generalize e.demand = x at hdemand ⊢
  generalize e'.demand = x' at hdemand ⊢
  cases hdemand with
  | nothing like answer => exact ⟨like, rfl⟩
  | input like pending =>
      have hresume := like.resume pending (d.request s).1
      exact ⟨hresume.1, congrArg (Prod.mk (d.request s).2) hresume.2⟩
  | output like value =>
      have hsettle := like.settle (d.emit value.toInt s).1
      exact ⟨hsettle.1, congrArg (Prod.mk (d.emit value.toInt s).2) hsettle.2⟩

end Engine

end WordMachine
