import WordMachine.Device.Script
import WordMachine.Proofs.Engine.Step
import WordMachine.Proofs.Refinement.Machine

/-!
# Engines refine the flat machine

Along the view `Engine.flat` a step of an engine is a step of the flat machine, whatever the device
says (`Engine.step_flat`). So is a run of any length (`Engine.stepAt_flat`): that memory grows, that
it is kept in two stores and that an image may end in zeros cannot be seen in cells and registers.
-/

namespace WordMachine

/-- What an engine looks like when only registers and cells can be seen. -/
def Engine.flat (e : Engine) : Flat :=
  e.machine.flat

/-! ## Steps -/

namespace Engine

variable {σ : Type} {e : Engine}

@[simp] theorem flat_withMachine (e : Engine) (m : Machine) : (e.withMachine m).flat = m.flat := rfl

/-- The engine that waits for input takes a reply as the flat machine does. -/
theorem resume_flat (h : e.machine.memory.Sound) (pending : Pending)
    (hpc : pending.pc = e.machine.pc) (hopcode : e.flat.opcode = Opcode.input.number)
    (reply : Reply) :
    (e.resume pending reply).1.machine.memory.Sound ∧
      e.flat.reply pending reply = ((e.resume pending reply).1.flat, (e.resume pending reply).2) := by
  cases reply with
  | wait => exact ⟨h, rfl⟩
  | endOfStream source => exact ⟨h, rfl⟩
  | fault why => exact ⟨h, rfl⟩
  | value n =>
      rcases pending with ⟨pc, dest⟩
      subst hpc
      have hshows := Machine.store_shows h hopcode dest (n := n) rfl
      cases dest with
      | immediate literal =>
          refine ⟨h, ?_⟩
          simp only [Flat.reply, Flat.store, hopcode]
          rfl
      | indirect a =>
          refine ⟨hshows.sound, ?_⟩
          have hnext := Flat.Offer.go.inj (Except.ok.inj hshows.offer_eq)
          exact congrArg (fun next => (next, Turn.answered (.ok none))) hnext.symm

/-- An engine that has not stopped steps as the flat machine does, and stays sound. -/
theorem step_flat (h : e.machine.memory.Sound) (hgoing : e.status.stop? = none) (d : Device σ)
    (s : σ) :
    (e.step d s).1.machine.memory.Sound ∧
      e.flat.step d s = ((e.step d s).1.flat, (e.step d s).2) := by
  rw [step_eq_meet]
  have hrow : e.flat.offer = e.machine.decode >>= e.flat.carryOut := Machine.offer_flat e.machine
  cases hdecode : e.machine.decode with
  | error why =>
      have hoffer : e.flat.offer = .error why := by rw [hrow, hdecode]; rfl
      rw [demand_of_error hgoing hdecode]
      simp only [Flat.step, hoffer]
      exact ⟨h, rfl⟩
  | ok i =>
      have hopcode := Machine.opcode_of_decode hdecode
      have hshows := Machine.execute_shows h hopcode
      have hoffer : e.flat.offer = e.machine.flat.carryOut i := by rw [hrow, hdecode]; rfl
      rw [demand_of_ok hgoing hdecode]
      simp only [Flat.step, hoffer]
      rcases hexec : e.machine.execute i with ⟨m, effect⟩
      rw [hexec] at hshows
      rcases hshows with ⟨hoffer, hsound, hflat⟩
      rw [← hoffer]
      cases effect with
      | proceed => exact ⟨hsound, rfl⟩
      | halt => exact ⟨hsound, congrArg (·, s, _) (hflat Effect.noConfusion).symm⟩
      | fail why => exact ⟨hsound, congrArg (·, s, _) (hflat Effect.noConfusion).symm⟩
      | request dest =>
          rcases Machine.eq_of_execute_eq_request hexec with ⟨rfl, rfl⟩
          have hreply := resume_flat (e := (e.executing (.input dest)).withMachine e.machine) hsound
            ⟨e.machine.pc, dest⟩ rfl hopcode (d.request s).1
          refine ⟨hreply.1, ?_⟩
          have hturn := hreply.2
          rw [flat_withMachine] at hturn
          simp only [Effect.offer, demandOf, Demand.meet]
          exact congrArg (fun r => (r.1, (d.request s).2, r.2)) hturn
      | emit value =>
          have hsame : m.flat = e.flat := hflat Effect.noConfusion
          simp only [Effect.offer, demandOf, Demand.meet]
          rcases d.emit value.toInt s with ⟨reaction, s'⟩
          cases reaction with
          | ok _ => exact ⟨hsound, rfl⟩
          | error why => exact ⟨hsound, congrArg (·, s', _) hsame.symm⟩

/-- An engine that is left waiting takes a late reply as the flat machine does. -/
theorem reply_flat (h : e.machine.memory.Sound) {d : Device σ} {s : σ} {pending : Pending}
    (hwaiting : (e.step d s).2.2 = .waiting pending) (reply : Reply) :
    (e.step d s).1.flat.reply pending reply =
      (((e.step d s).1.resume pending reply).1.flat,
        ((e.step d s).1.resume pending reply).2) := by
  rcases eq_of_demand_eq_input (demand_of_waiting hwaiting) with ⟨dest, -, hdecode, he, rfl⟩
  have hmachine : (e.step d s).1.machine = e.machine := by
    rw [he]
    exact machine_note _ _
  refine (resume_flat ?_ ⟨e.machine.pc, dest⟩ ?_ ?_ reply).2
  · rw [hmachine]
    exact h
  · rw [hmachine]
  · simp only [flat, hmachine]
    exact Machine.opcode_of_decode hdecode

/-! ## Runs -/

/-- The next step of the engine would ask for the given input. -/
def Asks (e : Engine) (pending : Pending) : Prop :=
  ∃ e', e.demand = .input e' pending

/-- The engines that calls may bring an engine to. Each step may be made on another device, and an input
may be completed by any reply wherever `late` allows it. If that is only where the engine asks for the
input (`Asks`), the calls are made one after the other; if it is anywhere, they overlap. -/
inductive Reached (late : Engine → Pending → Prop) (e₀ : Engine) : Engine → Prop where
  | start : Reached late e₀ e₀
  | begin {e : Engine} (before : Reached late e₀ e) : Reached late e₀ e.begin
  | step {σ : Type} {e : Engine} (before : Reached late e₀ e) (d : Device σ) (s : σ) :
      Reached late e₀ (e.step d s).1
  | reply {e : Engine} {pending : Pending} (before : Reached late e₀ e) (fine : late e pending)
      (reply : Reply) : Reached late e₀ (e.resume pending reply).1

theorem sound_step (h : e.machine.memory.Sound) (d : Device σ) (s : σ) :
    (e.step d s).1.machine.memory.Sound := by
  cases hstop : e.status.stop? with
  | some how =>
      rw [step_of_stopped hstop]
      exact h
  | none => exact (step_flat h hstop d s).1

theorem sound_resume (h : e.machine.memory.Sound) (pending : Pending) (reply : Reply) :
    (e.resume pending reply).1.machine.memory.Sound := by
  rcases pending with ⟨pc, dest⟩
  cases reply with
  | value n =>
      cases dest with
      | immediate literal => exact h
      | indirect a => exact h.write a (Word.ofInt n)
  | _ => exact h

/-- Memory is sound in every state that can be reached, also if calls overlap. -/
theorem sound_of_reached {late : Engine → Pending → Prop} {e₀ : Engine}
    (hsound : e₀.machine.memory.Sound) (h : Reached late e₀ e) : e.machine.memory.Sound := by
  induction h with
  | start => exact hsound
  | begin before ih => exact ih
  | step before d s ih => exact sound_step ih d s
  | reply before fine reply ih => exact sound_resume ih _ reply

/-- Each step of a run looks like the flat machine's. -/
theorem stepAt_flat (hsound : e.machine.memory.Sound) (hgoing : e.status.stop? = none)
    (d : Device σ) (k : Nat) (s : σ) :
    (stepAt (Engine.step d) k e s).map (fun r => (r.1.flat, r.2)) =
      stepAt (Flat.step d) k e.flat s := by
  induction k generalizing e s with
  | zero => exact congrArg some (step_flat hsound hgoing d s).2.symm
  | succ k ih =>
      have hflat := step_flat hsound hgoing d s
      have hagrees := agrees_step hgoing d s
      unfold stepAt
      rw [hflat.2]
      rcases hstep : e.step d s with ⟨e₁, s₁, turn⟩
      rw [hstep] at hflat hagrees
      have hnext : turn = .answered (.ok none) →
          (stepAt (Engine.step d) k e₁ s₁).map (fun r => (r.1.flat, r.2)) =
            stepAt (Flat.step d) k e₁.flat s₁ := by
        intro hgo
        subst hgo
        exact ih hflat.1 (by rw [hagrees.status_eq]; rfl) s₁
      rcases turn with ⟨_ | (_ | ending)⟩ | pending
      · rfl
      · exact hnext rfl
      · rfl
      · rfl

theorem flat_load (name : String) (values : List Int) (trace : Bool) :
    (Engine.load name (Image.ofIntegers values) trace).flat = Flat.load values := by
  have hmemory : (Memory.load (Image.ofIntegers values)).peek =
      fun a => Word.ofInt (values.getD a 0) :=
    funext (Memory.peek_load_ofIntegers values)
  simp only [flat, Engine.load, Machine.flat, Machine.load, hmemory, Flat.load]

end Engine

theorem Flat.load_append_zeros (values : List Int) (zeros : Nat) :
    Flat.load (values ++ List.replicate zeros 0) = Flat.load values := by
  have hmemory : ∀ a, (values ++ List.replicate zeros 0).getD a 0 = values.getD a 0 := by
    intro a
    by_cases ha : a < values.length
    · simp [List.getElem?_append_left ha]
    · have hpad : (List.replicate zeros (0 : Int))[a - values.length]?.getD 0 = 0 := by
        rw [List.getElem?_replicate]
        split <;> rfl
      rw [List.getD_eq_getElem?_getD, List.getElem?_append_right (Nat.not_lt.mp ha), hpad]
      simp [Nat.not_lt.mp ha]
  simp only [Flat.load, hmemory]

namespace Engine

variable {σ : Type}

/-- Along the view, the next step of an engine that has not stopped is the flat machine's, and so is
what a late reply makes of a step that is left waiting. An engine that has stopped refuses. -/
structure StepsFlat (e : Engine) (d : Device σ) (s : σ) : Prop where
  step_eq : e.status.stop? = none → e.flat.step d s = ((e.step d s).1.flat, (e.step d s).2)
  reply_eq : ∀ pending, (e.step d s).2.2 = .waiting pending → ∀ reply,
    (e.step d s).1.flat.reply pending reply =
      (((e.step d s).1.resume pending reply).1.flat, ((e.step d s).1.resume pending reply).2)
  refusal : ∀ how, e.status.stop? = some how →
    e.step d s = (e, s, .answered (.error (.terminated e.name how)))

/-- Engines refine the flat machine. Each step of a run comes to the same as the flat machine's, from
any image, with any number of zeros behind it and on any device: the same answer, the same exchange
with the device, and the same registers and cells afterwards. And in every state that an engine
reaches, by calls one after the other or by calls that overlap, and whatever a device then says, one step
of the engine is one step of the flat machine. -/
theorem refines_flat (d : Device σ) (name : String) (trace : Bool) (values : List Int) (s : σ) :
    (∀ k zeros,
      (stepAt (Engine.step d) k
          (Engine.load name (Image.ofIntegers (values ++ List.replicate zeros 0)) trace) s).map
          (fun r => (r.1.flat, r.2)) =
        stepAt (Flat.step d) k (Flat.load values) s) ∧
    ∀ late e, Reached late (Engine.load name (Image.ofIntegers values) trace) e →
      ∀ {τ : Type} (d' : Device τ) (t : τ), e.StepsFlat d' t := by
  refine ⟨?_, ?_⟩
  · intro k zeros
    have hsound := Memory.sound_load (Image.ofIntegers (values ++ List.replicate zeros 0))
    have hrun := stepAt_flat (e := Engine.load name _ trace) hsound rfl d k s
    rw [flat_load, Flat.load_append_zeros] at hrun
    exact hrun
  · intro late e he τ d' t
    have hsound := sound_of_reached (Memory.sound_load (Image.ofIntegers values)) he
    refine ⟨?_, ?_, ?_⟩
    · intro hgoing
      exact (step_flat hsound hgoing d' t).2
    · intro pending hwaiting reply
      exact reply_flat hsound hwaiting reply
    · intro how hstop
      exact step_of_stopped hstop

/-- A cell far behind the buffer is written, and then its word is handed to the device. -/
theorem refines_flat_far_cell :
    ∃ e, Reached Asks (Engine.load "engine"
        (Image.ofIntegers [1101, 2, 3, 3000000000, 4, 3000000000, 99])) e ∧
      e.flat.memory 3000000000 = 5 ∧
      (e.step Script.device (Script.ofList [])).2.1.outputs = #[5] ∧
      e.flat.step Script.device (Script.ofList []) =
        ((e.step Script.device (Script.ofList [])).1.flat,
          (e.step Script.device (Script.ofList [])).2) := by
  have hreached : Reached Asks (Engine.load "engine"
      (Image.ofIntegers [1101, 2, 3, 3000000000, 4, 3000000000, 99])) _ :=
    .step .start Script.device (Script.ofList [])
  refine ⟨_, hreached, rfl, rfl, ?_⟩
  exact ((refines_flat Script.device "engine" false [1101, 2, 3, 3000000000, 4, 3000000000, 99]
    (Script.ofList [])).2 _ _ hreached Script.device _).step_eq rfl

end Engine

end WordMachine
