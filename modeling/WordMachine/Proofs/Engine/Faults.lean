import WordMachine.Device.Broken
import WordMachine.Proofs.Refinement.Engine

/-!
# Steps that do not complete

A step fails for one of two reasons. Either the machine itself cannot go on: the instruction at the
program counter does not decode, jumps out of the address space or writes to a literal, and then the
fault names that program counter and that instruction's opcode. Or the device complains, and then the
fault is the device's own. In both cases, and also when the input has ended, the step leaves
registers, cells and the count of steps as they were.

* `Located` collects the computations of the machine whose faults name their place;
* `Engine.located_step` says so of a step whose device does not complain;
* `Engine.stops_clean` puts it together for every state that calls can bring an engine to.
-/

namespace WordMachine

/-! ## Faults that name their place -/

/-- Whatever goes wrong in `x` is a fault of the instruction with the given opcode at the given program
counter. -/
def Located {α : Type} (pc opcode : Int) (x : Except Fault α) : Prop :=
  ∀ why, x = .error why → why.site? = some (pc, opcode)

section Located

variable {α β : Type} {pc opcode : Int} {x : Except Fault α}

theorem located_ok (pc opcode : Int) (a : α) : Located pc opcode (.ok a) := by
  intro why h
  cases h

theorem Located.map (hx : Located pc opcode x) (f : α → β) : Located pc opcode (x.map f) := by
  intro why h
  cases x with
  | error cause =>
      cases h
      exact hx _ rfl
  | ok a => cases h

theorem located_address (value opcode pc : Int) : Located pc opcode (address value opcode pc) := by
  intro why h
  unfold address at h
  split at h
  · cases h
  · cases h
    rfl

end Located

/-! ## Decoding -/

namespace Fetched

theorem located_operand (f : Fetched) (k : Nat) : Located f.pc f.opcode (f.operand k) := by
  simp only [operand]
  split
  · intro why h
    cases h
    rfl
  · exact located_ok _ _ _
  · exact (located_address _ _ _).map _
  · exact (located_address _ _ _).map _

theorem located_decodeAs (f : Fetched) (o : Opcode) : Located f.pc f.opcode (f.decodeAs o) := by
  intro why h
  rcases decodeAs_eq_error_iff.mp h with ⟨k, -, hk, -⟩
  exact f.located_operand k why hk

/-- A fault of decoding names the program counter and the opcode digits of the word that it was
found in. -/
theorem located_decode (f : Fetched) : Located f.pc f.opcode f.decode := by
  unfold decode
  split
  · intro why h
    cases h
    rfl
  · exact f.located_decodeAs _

end Fetched

/-! ## Execution -/

/-- What an effect comes to, as far as it is a failure. -/
def Effect.verdict : Effect → Except Fault Unit
  | .fail why => .error why
  | _ => .ok ()

namespace Machine

variable {m : Machine}

/-- Where the machine stands: its program counter and the opcode of the word stored there. -/
def site (m : Machine) : Int × Int :=
  (m.pc, opcodeDigits (m.memory.peek m.pc).toInt)

/-- A decoded instruction has the opcode number that the word's two low digits show. -/
theorem site_of_decode {i : Instruction} (h : m.decode = .ok i) :
    m.site = (↑m.pc, ↑i.opcode.number) :=
  congrArg (Prod.mk (m.pc : Int)) (opcode_of_decode h)

theorem located_store (m : Machine) (o : Opcode) (pc : Nat) (dest : Operand) (word : Word) :
    Located pc o.number (m.store o pc dest word).2.verdict := by
  cases dest with
  | immediate literal =>
      intro why h
      cases h
      rfl
  | indirect a => exact located_ok _ _ _

/-- A jump out of the address space is blamed on the jump, not on its target. -/
theorem located_jump (m : Machine) (o : Opcode) (test : Word → Bool) (condition target : Operand) :
    Located m.pc o.number (m.jump o test condition target).2.verdict := by
  have htarget := located_address
    ((m.memory.value condition).2.value target).1.toInt o.number m.pc
  simp only [jump]
  split
  · cases haddress : address ((m.memory.value condition).2.value target).1.toInt o.number m.pc with
    | ok next => exact located_ok _ _ _
    | error cause =>
        intro why h
        cases h
        exact htarget cause haddress
  · exact located_ok _ _ _

/-- An executed instruction that fails is named by its fault. -/
theorem located_execute (m : Machine) (i : Instruction) :
    Located m.pc i.opcode.number (m.execute i).2.verdict := by
  cases i with
  | calculate c left right dest => exact located_store _ c.opcode m.pc dest _
  | jumpIfTrue condition target => exact m.located_jump .jumpIfTrue _ condition target
  | jumpIfFalse condition target => exact m.located_jump .jumpIfFalse _ condition target
  | _ => exact located_ok _ _ _

end Machine

/-! ## Memory only grows -/

theorem Memory.length_le_value (m : Memory) (o : Operand) : m.length ≤ (m.value o).2.length := by
  cases o with
  | immediate w => exact Nat.le_refl _
  | indirect a => exact m.length_le_reach a

namespace Machine

theorem length_le_store (m : Machine) (o : Opcode) (pc : Nat) (dest : Operand) (word : Word) :
    m.memory.length ≤ (m.store o pc dest word).1.memory.length := by
  cases dest with
  | immediate literal => exact Nat.le_refl _
  | indirect a =>
      simp only [store, Memory.length_write]
      exact m.memory.length_le_reach a

/-- Reading the target may make room for it even if the jump fails. -/
theorem length_le_jump (m : Machine) (o : Opcode) (test : Word → Bool) (condition target : Operand) :
    m.memory.length ≤ (m.jump o test condition target).1.memory.length := by
  have hcondition := m.memory.length_le_value condition
  have htarget := Nat.le_trans hcondition ((m.memory.value condition).2.length_le_value target)
  simp only [jump]
  split
  · split
    · exact htarget
    · exact htarget
  · exact hcondition

/-- An instruction never shortens the buffer. -/
theorem length_le_execute (m : Machine) (i : Instruction) :
    m.memory.length ≤ (m.execute i).1.memory.length := by
  cases i with
  | calculate c left right dest =>
      have hleft := m.memory.length_le_value left
      have hright := (m.memory.value left).2.length_le_value right
      have hstore := length_le_store ⟨((m.memory.value left).2.value right).2, m.pc, m.base⟩ c.opcode
        m.pc dest (c.apply (m.memory.value left).1 ((m.memory.value left).2.value right).1)
      exact Nat.le_trans (Nat.le_trans hleft hright) hstore
  | jumpIfTrue condition target => exact m.length_le_jump .jumpIfTrue _ condition target
  | jumpIfFalse condition target => exact m.length_le_jump .jumpIfFalse _ condition target
  | input dest => exact Nat.le_refl _
  | output source => exact m.memory.length_le_value source
  | adjustBase offset => exact m.memory.length_le_value offset
  | halt => exact Nat.le_refl _

end Machine

/-! ## What the device has against a step -/

def Reply.fault? : Reply → Option Fault
  | .fault why => some why
  | _ => none

/-- What the device has against the exchange that a step asks it for, if the step asks for one. -/
def Demand.complaint? {σ : Type} (d : Device σ) (s : σ) : Demand → Option Fault
  | nothing _ _ => none
  | input _ _ => (d.request s).1.fault?
  | output _ value =>
    match (d.emit value.toInt s).1 with
    | .error why => some why
    | .ok _ => none

namespace Engine

variable {σ : Type} {d : Device σ} {e e' e₁ : Engine} {s : σ} {pending : Pending} {reply : Reply}
  {why : Fault} {w : Word}

/-- An engine that wants to emit a value is about to complete an output instruction. -/
theorem eq_of_demand_eq_output (h : e.demand = .output e₁ w) :
    ∃ i m, e.status.stop? = none ∧ e.machine.decode = .ok i ∧
      e.machine.execute i = (m, .emit w) ∧ e₁ = (e.executing i).withMachine m := by
  cases hgoing : e.status.stop? with
  | some how => simp [demand, hgoing] at h
  | none =>
      cases hdecode : e.machine.decode with
      | error cause => simp [demand, hgoing, hdecode] at h
      | ok i =>
          rw [demand_of_ok hgoing hdecode] at h
          rcases hexec : e.machine.execute i with ⟨m, effect⟩
          rw [hexec] at h
          cases effect <;> cases h
          exact ⟨i, m, rfl, rfl, hexec, rfl⟩

/-- An engine that is through with a step without the device has failed, halted or gone on. -/
theorem eq_of_demand_eq_nothing {answer : Except Fault (Option Ending)}
    (hgoing : e.status.stop? = none) (h : e.demand = .nothing e₁ answer) :
    (∃ why, e.machine.decode = .error why ∧ answer = .error why ∧
      e₁ = { e with status := .running }.fail why) ∨
    ∃ i m effect, e.machine.decode = .ok i ∧ e.machine.execute i = (m, effect) ∧
      e₁ = (((e.executing i).withMachine m).complete effect).1 ∧
      answer = (((e.executing i).withMachine m).complete effect).2 := by
  cases hdecode : e.machine.decode with
  | error why =>
      rw [demand_of_error hgoing hdecode] at h
      cases h
      exact .inl ⟨why, rfl, rfl, rfl⟩
  | ok i =>
      rw [demand_of_ok hgoing hdecode] at h
      rcases hexec : e.machine.execute i with ⟨m, effect⟩
      rw [hexec] at h
      refine .inr ⟨i, m, effect, rfl, hexec, ?_⟩
      cases effect <;> cases h <;> exact ⟨rfl, rfl⟩

/-- A failed store behind a reply is a fault of the input instruction. -/
theorem located_resume (h : e.demand = .input e₁ pending) (hquiet : reply.fault? = none)
    (herror : (e₁.resume pending reply).2 = .answered (.error why)) :
    why.site? = some e.machine.site := by
  rcases eq_of_demand_eq_input h with ⟨dest, -, hdecode, rfl, rfl⟩
  cases reply with
  | wait => cases herror
  | endOfStream source => cases herror
  | fault cause => cases hquiet
  | value n =>
      rw [Machine.site_of_decode hdecode]
      cases dest with
      | immediate literal =>
          cases herror
          rfl
      | indirect a => cases herror

/-- A step that fails although the device has nothing against it is named by its fault. -/
theorem located_step (hgoing : e.status.stop? = none) (hquiet : e.demand.complaint? d s = none)
    (herror : (e.step d s).2.2 = .answered (.error why)) :
    why.site? = some e.machine.site := by
  rw [step_eq_meet] at herror
  cases hdemand : e.demand with
  | input e₁ pending =>
      rw [hdemand] at herror hquiet
      exact located_resume hdemand hquiet herror
  | output e₁ w =>
      rw [hdemand] at herror hquiet
      simp only [Demand.meet, Demand.complaint?] at herror hquiet
      cases hreaction : (d.emit w.toInt s).1 with
      | ok _ =>
          rw [hreaction] at herror
          cases herror
      | error cause => simp [hreaction] at hquiet
  | nothing e₁ answer =>
      rw [hdemand] at herror
      cases herror
      rcases eq_of_demand_eq_nothing hgoing hdemand with
        ⟨cause, hdecode, hanswer, -⟩ | ⟨i, m, effect, hdecode, hexec, -, hanswer⟩
      · cases hanswer
        exact e.machine.fetch.located_decode _ hdecode
      · have hlocated := e.machine.located_execute i
        rw [hexec] at hlocated
        rw [Machine.site_of_decode hdecode]
        cases effect <;> cases hanswer
        exact hlocated _ rfl

/-! ## Clean stops -/

/-- Nothing can be seen of a step that led from one engine to the other, except that the buffer may
have grown. -/
structure Untouched (e e' : Engine) : Prop where
  pc_eq : e'.machine.pc = e.machine.pc
  base_eq : e'.machine.base = e.machine.base
  steps_eq : e'.steps = e.steps
  peek_eq : ∀ a, e'.machine.memory.peek a = e.machine.memory.peek a
  length_le : e.machine.memory.length ≤ e'.machine.memory.length

/-- What is read to no avail may lengthen the buffer, and that is all it does. -/
theorem untouched_of_flat (hflat : e'.flat = e.flat) (hsteps : e'.steps = e.steps)
    (hlength : e.machine.memory.length ≤ e'.machine.memory.length) : e.Untouched e' where
  pc_eq := congrArg Flat.pc hflat
  base_eq := congrArg Flat.base hflat
  steps_eq := hsteps
  peek_eq := congrFun (congrArg Flat.memory hflat)
  length_le := hlength

/-- What a failed step leaves. The fault is what the device complains about, or else it names the
instruction that the program counter still points to. -/
structure FailsClean (e : Engine) (complaint? : Option Fault) (e' : Engine) (why : Fault) : Prop where
  status_eq : e'.status = .faulted why
  untouched : e.Untouched e'
  complained : ∀ cause, complaint? = some cause → why = cause
  located : complaint? = none →
    why.site? = some e'.machine.site

/-- What the end of the input leaves: everything but the status, in front of the input
instruction. -/
structure EndsClean (e e' : Engine) : Prop where
  status_eq : e'.status = .ended
  machine_eq : e'.machine = e.machine
  steps_eq : e'.steps = e.steps
  asks : ∃ dest, e'.machine.decode = .ok (.input dest)

/-- What a step leaves that does not complete its instruction. -/
structure StopsClean (e : Engine) (complaint? : Option Fault) (r : Engine × Turn (Option Ending)) :
    Prop where
  fails : ∀ why, r.2 = .answered (.error why) → e.FailsClean complaint? r.1 why
  ends : r.2 = .answered (.ok (some .endOfStream)) → e.EndsClean r.1

theorem Untouched.site_eq (h : e.Untouched e') : e'.machine.site = e.machine.site := by
  simp only [Machine.site, h.pc_eq, h.peek_eq]

/-- A failed exchange with the device leaves the engine in front of the instruction. -/
theorem Untouched.complained (h : e.Untouched e₁) : e.FailsClean (some why) (e₁.fail why) why where
  status_eq := rfl
  untouched := ⟨h.pc_eq, h.base_eq, h.steps_eq, h.peek_eq, h.length_le⟩
  complained := by
    intro cause hcause
    exact Option.some.inj hcause
  located := by
    intro hquiet
    cases hquiet

theorem Untouched.located (h : e.Untouched e₁) (hsite : why.site? = some e.machine.site) :
    e.FailsClean none (e₁.fail why) why where
  status_eq := rfl
  untouched := ⟨h.pc_eq, h.base_eq, h.steps_eq, h.peek_eq, h.length_le⟩
  complained := by
    intro cause hcause
    cases hcause
  located := by
    intro _
    exact hsite.trans (congrArg some h.site_eq.symm)

theorem FailsClean.stopsClean {complaint? : Option Fault} (h : e.FailsClean complaint? e' why) :
    e.StopsClean complaint? (e', .answered (.error why)) := by
  refine ⟨?_, ?_⟩
  · intro why' herror
    cases herror
    exact h
  · intro hend
    cases hend

theorem EndsClean.stopsClean {complaint? : Option Fault} (h : e.EndsClean e') :
    e.StopsClean complaint? (e', .answered (.ok (some .endOfStream))) := by
  refine ⟨?_, fun _ => h⟩
  intro why herror
  cases herror

/-- There is nothing to show of a step that neither failed nor found the end of the input. -/
theorem stopsClean_of_ne {complaint? : Option Fault} {turn : Turn (Option Ending)}
    (herror : ∀ why, turn ≠ .answered (.error why))
    (hend : turn ≠ .answered (.ok (some .endOfStream))) : e.StopsClean complaint? (e', turn) :=
  ⟨fun why h => absurd h (herror why), fun h => absurd h hend⟩

theorem untouched_of_machine (hmachine : e'.machine = e.machine) (hsteps : e'.steps = e.steps) :
    e.Untouched e' := by
  have hlength : e.machine.memory.length = e'.machine.memory.length := by rw [hmachine]
  exact untouched_of_flat (congrArg Machine.flat hmachine) hsteps (Nat.le_of_eq hlength)

/-- An input that is not completed is left as it was begun. -/
theorem stopsClean_resume (h : e.demand = .input e₁ pending) (reply : Reply) :
    e.StopsClean reply.fault? (e₁.resume pending reply) := by
  rcases eq_of_demand_eq_input h with ⟨dest, -, hdecode, rfl, rfl⟩
  have huntouched : e.Untouched (e.executing (.input dest)) :=
    untouched_of_machine (e.machine_executing _) (e.steps_executing _)
  cases reply with
  | wait => exact stopsClean_of_ne (by rintro _ ⟨⟩) (by rintro ⟨⟩)
  | endOfStream source =>
      have hends : e.EndsClean ((e.executing (.input dest)).finish .endOfStream) :=
        ⟨rfl, e.machine_executing _, e.steps_executing _, dest,
          (congrArg Machine.decode (e.machine_executing _)).trans hdecode⟩
      exact hends.stopsClean
  | fault cause => exact huntouched.complained.stopsClean
  | value n =>
      cases dest with
      | immediate literal =>
          have hquiet : (Reply.value n).fault? = none := rfl
          exact (huntouched.located (located_resume h hquiet rfl)).stopsClean
      | indirect a => exact stopsClean_of_ne (by rintro _ ⟨⟩) (by rintro ⟨⟩)

/-- What has been carried out of an instruction that is not complete cannot be seen. -/
theorem untouched_of_execute (hsound : e.machine.memory.Sound) {i : Instruction} {m : Machine}
    {effect : Effect} (hdecode : e.machine.decode = .ok i)
    (hexec : e.machine.execute i = (m, effect)) (hopen : effect ≠ .proceed) :
    e.Untouched ((e.executing i).withMachine m) := by
  have hshows := Machine.execute_shows hsound (Machine.opcode_of_decode hdecode)
  have hlength := e.machine.length_le_execute i
  rw [hexec] at hshows hlength
  exact untouched_of_flat (hshows.flat_eq hopen) (steps_executing e i) hlength

/-- A step that does not complete its instruction leaves it as it was begun. -/
theorem stopsClean_step (hsound : e.machine.memory.Sound) (hgoing : e.status.stop? = none)
    (d : Device σ) (s : σ) :
    e.StopsClean (e.demand.complaint? d s) ((e.step d s).1, (e.step d s).2.2) := by
  cases hdemand : e.demand with
  | input e₁ pending =>
      rw [step_eq_meet, hdemand]
      exact stopsClean_resume hdemand (d.request s).1
  | output e₁ w =>
      rcases eq_of_demand_eq_output hdemand with ⟨i, m, -, hdecode, hexec, he₁⟩
      have huntouched : e.Untouched e₁ :=
        he₁ ▸ untouched_of_execute hsound hdecode hexec Effect.noConfusion
      rw [step_eq_meet, hdemand]
      simp only [Demand.meet, Demand.complaint?]
      cases (d.emit w.toInt s).1 with
      | ok _ => exact stopsClean_of_ne (by rintro _ ⟨⟩) (by rintro ⟨⟩)
      | error cause => exact huntouched.complained.stopsClean
  | nothing e₁ answer =>
      have hlocated : ∀ why, answer = .error why → why.site? = some e.machine.site := by
        intro why herror
        refine located_step (d := d) (s := s) hgoing (by rw [hdemand]; rfl) ?_
        rw [step_eq_meet, hdemand, herror]
        rfl
      rw [step_eq_meet, hdemand]
      rcases eq_of_demand_eq_nothing hgoing hdemand with
        ⟨cause, hdecode, rfl, rfl⟩ | ⟨i, m, effect, hdecode, hexec, rfl, rfl⟩
      · have huntouched : e.Untouched { e with status := .running } := untouched_of_machine rfl rfl
        exact (huntouched.located (hlocated cause rfl)).stopsClean
      · cases effect with
        | fail why =>
            have huntouched := untouched_of_execute hsound hdecode hexec Effect.noConfusion
            exact (huntouched.located (hlocated why rfl)).stopsClean
        | _ => exact stopsClean_of_ne (by rintro _ ⟨⟩) (by rintro ⟨⟩)

/-- Failures and ends are clean and tell the truth about their place. Calls may have brought the engine
to any state, one after the other or overlapping, on whatever devices. If it has stopped, it refuses to step and nothing changes. Otherwise
a step that fails leaves registers, cells and the count of steps as they were, and the buffer no
shorter. Its fault is the device's, if the device complains about what it is asked for; else it names
the program counter and the opcode of the word stored there. A step that finds the end of the input
leaves the whole machine as it was, in front of the input instruction. Both hold as well of a step that
has to wait for the device's answer. -/
theorem stops_clean (name : String) (trace : Bool) (values : List Int)
    {late : Engine → Pending → Prop}
    (h : Reached late (Engine.load name (Image.ofIntegers values) trace) e) (d : Device σ) (s : σ) :
    (∀ how, e.status.stop? = some how →
      e.step d s = (e, s, .answered (.error (.terminated e.name how)))) ∧
    (e.status.stop? = none →
      e.StopsClean (e.demand.complaint? d s) ((e.step d s).1, (e.step d s).2.2)) ∧
    ∀ pending, (e.step d s).2.2 = .waiting pending → ∀ reply,
      e.StopsClean reply.fault? ((e.step d s).1.resume pending reply) := by
  have hsound := sound_of_reached (Memory.sound_load (Image.ofIntegers values)) h
  refine ⟨?_, ?_, ?_⟩
  · intro how hstop
    exact step_of_stopped hstop
  · intro hgoing
    exact stopsClean_step hsound hgoing d s
  · intro pending hwaiting reply
    exact stopsClean_resume (demand_of_waiting hwaiting) reply

/-- An addition that reads behind the buffer before it finds that its destination is a literal. -/
theorem stops_clean_literal :
    ∃ e, Reached Asks
        (Engine.load "engine" (Image.ofIntegers [1101, 1, 1, 20, 10001, 40, 41, 5])) e ∧
      (e.step Broken.device ⟨.failure, .failure, "gone"⟩).2.2 =
        .answered (.error (.invalidWrite 5 1 4)) ∧
      (e.machine.memory.length,
        (e.step Broken.device ⟨.failure, .failure, "gone"⟩).1.machine.memory.length) = (41, 83) ∧
      e.Untouched (e.step Broken.device ⟨.failure, .failure, "gone"⟩).1 := by
  have hreached : Reached Asks
      (Engine.load "engine" (Image.ofIntegers [1101, 1, 1, 20, 10001, 40, 41, 5])) _ :=
    .step .start Broken.device ⟨.failure, .failure, "gone"⟩
  have hclean := (stops_clean "engine" false _ hreached Broken.device ⟨.failure, .failure, "gone"⟩).2.1 rfl
  exact ⟨_, hreached, rfl, rfl, (hclean.fails (.invalidWrite 5 1 4) rfl).untouched⟩

end Engine

end WordMachine
