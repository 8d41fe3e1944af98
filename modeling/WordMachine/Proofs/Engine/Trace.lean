import WordMachine.Device.Link
import WordMachine.Engine.Report
import WordMachine.Proofs.Device.Coupling
import WordMachine.Proofs.Engine.Step

/-!
# Traced runs

An engine that is traced records each instruction that it decodes, before it executes it. Apart from
these records it does what it would do untraced: forgetting them (`Engine.untraced`) commutes with
each way to go on, and so with every run, whatever the device does and however late it answers.

A run keeps the machines that it has come through (`Course.visited`), and what it traces can be read
off them. Steps are counted when they are complete, so how many lines there are for how many steps
depends on how the run has come to its end: `Course.Noted` is the invariant that keeps account.
-/

namespace WordMachine

/-! ## Forgetting the trace -/

def Event.isTrace : Event → Bool
  | .executing .. => true
  | _ => false

/-- The line tells of a traced instruction: no other lines have a relative base. -/
def Log.Line.isTrace (line : Log.Line) : Bool :=
  match line.values with
  | [.fields [(name, _)]] => name == "relativeBase"
  | _ => false

theorem Event.isTrace_line (event : Event) (name : String) :
    (event.line name).isTrace = event.isTrace := by
  cases event <;> rfl

namespace Engine

/-- The engine as it would be if nothing had been traced. -/
def untraced (e : Engine) : Engine :=
  { e with trace := false, events := e.events.filter fun event => !event.isTrace }

def traces (e : Engine) : List Event :=
  e.events.toList.filter Event.isTrace

/-- The log without its trace lines is the log of the engine that was never traced. -/
theorem log_untraced (e : Engine) :
    e.untraced.log = e.log.filter fun line => !line.isTrace := by
  simp only [log, untraced, Array.toList_filter, List.filter_map, Function.comp_def,
    Event.isTrace_line]

theorem filter_log (e : Engine) :
    e.log.filter Log.Line.isTrace = e.traces.map (Event.line e.name) := by
  simp only [log, traces, List.filter_map, Function.comp_def, Event.isTrace_line]

/-- Whoever waits for the engine to stop is told the same, traced or not. -/
theorem notices_untraced (e : Engine) : e.untraced.notices = e.notices := by
  simp only [notices, untraced, Array.toList_filter, List.filterMap_filter]
  congr 1
  funext event
  cases event <;> rfl

theorem untraced_load (name : String) (image : Image) :
    (load name image true).untraced = load name image false := rfl

theorem untraced_begin (e : Engine) : e.untraced.begin = e.begin.untraced := by
  simp [untraced, begin, Event.isTrace]

theorem untraced_fail (e : Engine) (why : Fault) : e.untraced.fail why = (e.fail why).untraced := by
  simp [untraced, fail, Event.isTrace]

theorem untraced_finish (e : Engine) (ending : Ending) :
    e.untraced.finish ending = (e.finish ending).untraced := by
  simp [untraced, finish, Event.isTrace]

theorem untraced_executing (e : Engine) (i : Instruction) :
    e.untraced.executing i = (e.executing i).untraced := by
  cases htrace : e.trace <;> simp [untraced, executing, note, htrace, Event.isTrace]

theorem untraced_complete (e : Engine) (effect : Effect) :
    e.untraced.complete effect = ((e.complete effect).1.untraced, (e.complete effect).2) := by
  cases effect with
  | fail why => exact congrArg (·, _) (untraced_fail e why)
  | halt => exact congrArg (·, _) (untraced_finish e.count .halt)
  | _ => rfl

theorem untraced_resume (e : Engine) (pending : Pending) (reply : Reply) :
    e.untraced.resume pending reply =
      ((e.resume pending reply).1.untraced, (e.resume pending reply).2) := by
  cases reply with
  | wait => rfl
  | endOfStream source => exact congrArg (·, _) (untraced_finish e .endOfStream)
  | fault why => exact congrArg (·, _) (untraced_fail e why)
  | value v =>
      let stored := e.machine.store .input pending.pc pending.dest (Word.ofInt v)
      exact congrArg (fun r => (r.1, Turn.answered r.2))
        (untraced_complete (e.withMachine stored.1) stored.2)

theorem untraced_settle (e : Engine) (reaction : Except Fault Unit) :
    e.untraced.settle reaction = ((e.settle reaction).1.untraced, (e.settle reaction).2) := by
  cases reaction with
  | error why => exact congrArg (·, _) (untraced_fail e why)
  | ok _ => rfl

end Engine

def Demand.untraced : Demand → Demand
  | nothing e answer => .nothing e.untraced answer
  | input e pending => .input e.untraced pending
  | output e value => .output e.untraced value

/-- The device sees nothing of the records. -/
theorem Demand.untraced_meet {σ : Type} (d : Device σ) (s : σ) (x : Demand) :
    x.untraced.meet d s = ((x.meet d s).1.untraced, (x.meet d s).2) := by
  cases x with
  | nothing e answer => rfl
  | input e pending => simp only [untraced, meet, Engine.untraced_resume]
  | output e value => simp only [untraced, meet, Engine.untraced_settle]

namespace Engine

variable {σ : Type}

theorem untraced_demandOf (e : Engine) (m : Machine) (effect : Effect) :
    e.untraced.demandOf (m, effect) = (e.demandOf (m, effect)).untraced := by
  have hcomplete := untraced_complete (e.withMachine m) effect
  cases effect with
  | request dest => rfl
  | emit value => rfl
  | _ => exact congrArg (fun r => Demand.nothing r.1 r.2) hcomplete

theorem untraced_demand (e : Engine) : e.untraced.demand = e.demand.untraced := by
  cases hstop : e.status.stop? with
  | some how =>
      have hstop' : e.untraced.status.stop? = some how := hstop
      simp only [demand, hstop, hstop']
      rfl
  | none =>
      have hstop' : e.untraced.status.stop? = none := hstop
      cases hdecode : e.machine.decode with
      | error why =>
          have hdecode' : e.untraced.machine.decode = .error why := hdecode
          rw [demand_of_error hstop hdecode, demand_of_error hstop' hdecode']
          exact congrArg (Demand.nothing · _) (untraced_fail { e with status := .running } why)
      | ok i =>
          have hdecode' : e.untraced.machine.decode = .ok i := hdecode
          rw [demand_of_ok hstop hdecode, demand_of_ok hstop' hdecode', untraced_executing]
          exact untraced_demandOf _ _ _

/-- A step is the same if nothing is traced, but for what it traces. -/
theorem untraced_step (d : Device σ) (e : Engine) (s : σ) :
    e.untraced.step d s = ((e.step d s).1.untraced, (e.step d s).2) := by
  rw [step_eq_meet, step_eq_meet, untraced_demand, Demand.untraced_meet]

/-- So is a run. -/
theorem untraced_runOn (d : Device σ) (fuel : Nat) (e : Engine) (s : σ)
    (turn : Turn (Option Ending)) :
    runOn d fuel (e.untraced, s, turn) =
      (runOn d fuel (e, s, turn)).map fun r => (r.1.untraced, r.2) := by
  cases hclosing : turn.closing? e.steps with
  | some last =>
      have hclosing' : turn.closing? e.untraced.steps = some last := hclosing
      rw [runOn_of_closing hclosing, runOn_of_closing hclosing']
      rfl
  | none =>
      cases eq_of_closing_eq_none hclosing
      cases fuel with
      | zero => rfl
      | succ fuel =>
          simp only [runOn, untraced_step]
          exact untraced_runOn d fuel _ _ _

/-- Tracing changes no run: the same turn, the same state outside, and the same engine but for the
trace lines. -/
theorem untraced_run (d : Device σ) (fuel : Nat) (e : Engine) (s : σ) :
    e.untraced.run d fuel s = (e.run d fuel s).map fun r => (r.1.untraced, r.2) := by
  simp only [run, untraced_begin, untraced_step]
  exact untraced_runOn d fuel _ _ _

end Engine

/-! ## What a step traces -/

/-- The trace of the instruction that the machine is about to execute, if there is one. -/
def Machine.trace? (m : Machine) : Option Event :=
  m.decode.toOption.map fun i => .executing m.pc i m.base

namespace Engine

variable {σ : Type} {e : Engine}

/-- The second engine goes by the same name, traces if the first one does, and has traced the same
instructions. -/
structure Notes (e e' : Engine) : Prop where
  name_eq : e'.name = e.name
  trace_eq : e'.trace = e.trace
  traces_eq : e'.traces = e.traces

theorem notes_fail (e : Engine) (why : Fault) : e.Notes (e.fail why) :=
  ⟨rfl, rfl, by simp [traces, fail, Event.isTrace]⟩

theorem notes_finish (e : Engine) (ending : Ending) : e.Notes (e.finish ending) :=
  ⟨rfl, rfl, by simp [traces, finish, Event.isTrace]⟩

theorem notes_complete (e : Engine) (effect : Effect) : e.Notes (e.complete effect).1 := by
  cases effect with
  | fail why => exact notes_fail e why
  | halt => exact ⟨rfl, rfl, (notes_finish e.count .halt).traces_eq⟩
  | _ => exact ⟨rfl, rfl, rfl⟩

theorem notes_resume (e : Engine) (pending : Pending) (reply : Reply) :
    e.Notes (e.resume pending reply).1 := by
  cases reply with
  | wait => exact ⟨rfl, rfl, rfl⟩
  | endOfStream source => exact notes_finish e .endOfStream
  | fault why => exact notes_fail e why
  | value v =>
      let stored := e.machine.store .input pending.pc pending.dest (Word.ofInt v)
      have hcomplete := notes_complete (e.withMachine stored.1) stored.2
      exact ⟨hcomplete.name_eq, hcomplete.trace_eq, hcomplete.traces_eq⟩

theorem notes_settle (e : Engine) (reaction : Except Fault Unit) :
    e.Notes (e.settle reaction).1 := by
  cases reaction with
  | error why => exact notes_fail e why
  | ok _ => exact ⟨rfl, rfl, rfl⟩

/-- Nothing is traced between the execution of an instruction and the end of the step. -/
theorem notes_meet (e : Engine) (r : Machine × Effect) (d : Device σ) (s : σ) :
    e.Notes ((e.demandOf r).meet d s).1 := by
  rcases r with ⟨m, effect⟩
  have hmachine {e' : Engine} (h : (e.withMachine m).Notes e') : e.Notes e' :=
    ⟨h.name_eq, h.trace_eq, h.traces_eq⟩
  cases effect with
  | request dest => exact hmachine (notes_resume _ _ _)
  | emit value => exact hmachine (notes_settle _ _)
  | _ => exact hmachine (notes_complete _ _)

/-- An instruction is traced before it is executed, with the base that it starts from. -/
theorem traces_executing (h : e.trace = true) (i : Instruction) :
    (e.executing i).name = e.name ∧ (e.executing i).trace = true ∧
      (e.executing i).traces = e.traces ++ [.executing e.machine.pc i e.machine.base] := by
  simp [traces, executing, note, h, Event.isTrace]

/-- A step traces the instruction that it decodes, and nothing if there is none. -/
theorem traces_step (hgoing : e.status.stop? = none) (h : e.trace = true) (d : Device σ) (s : σ) :
    (e.step d s).1.name = e.name ∧ (e.step d s).1.trace = true ∧
      (e.step d s).1.traces = e.traces ++ e.machine.trace?.toList := by
  rw [step_eq_meet]
  cases hdecode : e.machine.decode with
  | error why =>
      have hnotes := notes_fail { e with status := .running } why
      rw [demand_of_error hgoing hdecode, Machine.trace?, hdecode]
      refine ⟨hnotes.name_eq, hnotes.trace_eq.trans h, ?_⟩
      exact hnotes.traces_eq.trans (List.append_nil _).symm
  | ok i =>
      have hnotes := notes_meet (e.executing i) (e.machine.execute i) d s
      rcases traces_executing h i with ⟨hname, htrace, htraces⟩
      rw [demand_of_ok hgoing hdecode, Machine.trace?, hdecode]
      exact ⟨hnotes.name_eq.trans hname, hnotes.trace_eq.trans htrace,
        hnotes.traces_eq.trans htraces⟩

/-- What cannot be decoded is not traced either: there is nothing to show. -/
theorem step_of_undecoded {why : Fault} (hgoing : e.status.stop? = none)
    (hdecode : e.machine.decode = .error why) (d : Device σ) (s : σ) :
    (e.step d s).2.2 = .answered (.error why) := by
  rw [step_eq_meet, demand_of_error hgoing hdecode]
  rfl

end Engine

/-! ## Whole runs -/

inductive Happening (σ : Type) where
  -- The next instruction is executed.
  | step
  -- The instruction that waits for its value gets a reply.
  | reply (reply : Reply)
  -- What is outside changes.
  | change (update : σ → σ)

/-- How far a run has come. -/
structure Course (σ : Type) where
  engine : Engine
  outside : σ
  -- What the latest step has come to.
  turn : Turn (Option Ending)
  -- The machine before each step.
  visited : List Machine

namespace Course

variable {σ : Type} {d : Device σ} {c c' : Course σ} {name : String}

def start (d : Device σ) (e : Engine) (s : σ) : Course σ :=
  let (engine, outside, turn) := e.begin.step d s
  { engine, outside, turn, visited := [e.machine] }

def stepped (d : Device σ) (c : Course σ) : Course σ :=
  let (engine, outside, turn) := c.engine.step d c.outside
  { engine, outside, turn, visited := c.visited ++ [c.engine.machine] }

def next (d : Device σ) (c : Course σ) : Happening σ → Option (Course σ)
  | .step =>
    match c.turn with
    | .answered (.ok none) => some (c.stepped d)
    | _ => none
  | .reply reply =>
    match c.turn with
    | .waiting pending =>
      let (engine, turn) := c.engine.resume pending reply
      some { c with engine, turn }
    | _ => none
  | .change update => some { c with outside := update c.outside }

def follow (d : Device σ) (c : Course σ) (happenings : List (Happening σ)) : Option (Course σ) :=
  happenings.foldlM (next d) c

/-- The course as it would be if nothing had been traced. -/
def untraced (c : Course σ) : Course σ :=
  { c with engine := c.engine.untraced }

theorem untraced_start (d : Device σ) (e : Engine) (s : σ) :
    start d e.untraced s = (start d e s).untraced := by
  simp only [start, Engine.untraced_begin, Engine.untraced_step]
  rfl

theorem untraced_next (d : Device σ) (c : Course σ) (happening : Happening σ) :
    c.untraced.next d happening = (c.next d happening).map untraced := by
  rcases c with ⟨engine, outside, turn, visited⟩
  cases happening with
  | step =>
      rcases turn with (why | (_ | ending)) | pending
      · rfl
      · simp only [next, stepped, untraced, Engine.untraced_step]
        rfl
      · rfl
      · rfl
  | reply reply =>
      cases turn with
      | answered answer => rfl
      | waiting pending =>
          simp only [next, untraced, Engine.untraced_resume]
          rfl
  | change update => rfl

theorem untraced_follow (d : Device σ) (c : Course σ) (happenings : List (Happening σ)) :
    c.untraced.follow d happenings = (c.follow d happenings).map untraced := by
  induction happenings generalizing c with
  | nil => rfl
  | cons happening happenings ih =>
      simp only [follow, List.foldlM_cons, untraced_next]
      cases c.next d happening with
      | none => rfl
      | some c' => exact ih c'

/-! ### Counting -/

/-- What holds of a traced run that has come this far. -/
structure Noted (name : String) (c : Course σ) : Prop where
  name_eq : c.engine.name = name
  tracing : c.engine.trace = true
  traces_eq : c.engine.traces = c.visited.filterMap Machine.trace?
  status_eq : c.engine.status = c.turn.status
  -- Each step but the last one has completed an instruction.
  counted : ∃ earlier last, c.visited = earlier ++ [last] ∧
    c.engine.steps = earlier.length + c.turn.completed ∧
    (∀ m ∈ earlier, ∃ i, m.decode = .ok i) ∧
    ∀ why, last.decode = .error why → c.turn = .answered (.error why)

theorem filterMap_singleton (m : Machine) :
    [m].filterMap Machine.trace? = m.trace?.toList := rfl

theorem noted_start (d : Device σ) (name : String) (image : Image) (s : σ) :
    (start d (Engine.load name image true) s).Noted name := by
  have hgoing : (Engine.load name image true).begin.status.stop? = none := rfl
  rcases Engine.traces_step hgoing rfl d s with ⟨hname, htracing, htraces⟩
  have hagrees := Engine.agrees_step hgoing d s
  refine ⟨hname, htracing, ?_, hagrees.status_eq, [], _, rfl, ?_, by simp, ?_⟩
  · exact htraces.trans (filterMap_singleton _).symm
  · exact hagrees.steps_eq
  · intro why hdecode
    exact Engine.step_of_undecoded hgoing hdecode d s

/-- Each further step adds the trace of the instruction that stands at the program counter, if there
is one. -/
theorem Noted.stepped (h : c.Noted name) (hgoes : c.turn = .answered (.ok none)) :
    (c.stepped d).Noted name := by
  have hgoing : c.engine.status.stop? = none := by
    rw [h.status_eq, hgoes]
    rfl
  rcases Engine.traces_step hgoing h.tracing d c.outside with ⟨hname, htracing, htraces⟩
  have hagrees := Engine.agrees_step hgoing d c.outside
  rcases h.counted with ⟨earlier, last, hvisited, hsteps, hearlier, hlast⟩
  refine ⟨hname.trans h.name_eq, htracing, ?_, hagrees.status_eq,
    c.visited, c.engine.machine, rfl, ?_, ?_, ?_⟩
  · rw [Course.stepped, htraces, h.traces_eq, List.filterMap_append, filterMap_singleton]
  · have hcount : c.engine.steps = c.visited.length := by
      rw [hsteps, hgoes, hvisited, List.length_append]
      rfl
    exact hcount ▸ hagrees.steps_eq
  · -- An instruction that could not be decoded would have stopped the run.
    have hdecodes : ∃ i, last.decode = .ok i := by
      cases hdecode : last.decode with
      | error why => cases hgoes.symm.trans (hlast why hdecode)
      | ok i => exact ⟨i, rfl⟩
    rw [hvisited, List.forall_mem_append, List.forall_mem_singleton]
    exact ⟨hearlier, hdecodes⟩
  · intro why hdecode
    exact Engine.step_of_undecoded hgoing hdecode d c.outside

/-- A late reply adds no line; the instruction was traced when it asked. -/
theorem Noted.replied {pending : Pending} (h : c.Noted name) (hwaits : c.turn = .waiting pending)
    (reply : Reply) :
    Noted name { c with
      engine := (c.engine.resume pending reply).1
      turn := (c.engine.resume pending reply).2 } := by
  have hnotes := Engine.notes_resume c.engine pending reply
  have hrunning : c.engine.status = .running := by
    rw [h.status_eq, hwaits]
    rfl
  have hagrees := Engine.agrees_resume hrunning pending reply
  rcases h.counted with ⟨earlier, last, hvisited, hsteps, hearlier, hlast⟩
  refine ⟨hnotes.name_eq.trans h.name_eq, hnotes.trace_eq.trans h.tracing,
    hnotes.traces_eq.trans h.traces_eq, hagrees.status_eq,
    earlier, last, hvisited, ?_, hearlier, ?_⟩
  · have hcount : c.engine.steps = earlier.length := by
      rw [hsteps, hwaits]
      rfl
    exact hcount ▸ hagrees.steps_eq
  · intro why hdecode
    cases hwaits.symm.trans (hlast why hdecode)

theorem Noted.next {happening : Happening σ} (h : c.Noted name)
    (hnext : c.next d happening = some c') : c'.Noted name := by
  cases happening with
  | step =>
      simp only [Course.next] at hnext
      split at hnext
      · cases hnext
        exact h.stepped ‹_›
      · cases hnext
  | reply reply =>
      simp only [Course.next] at hnext
      split at hnext
      · cases hnext
        exact h.replied ‹_› reply
      · cases hnext
  | change update =>
      cases hnext
      exact ⟨h.name_eq, h.tracing, h.traces_eq, h.status_eq, h.counted⟩

/-- The run lemma over all that can happen next. -/
theorem Noted.follow {happenings : List (Happening σ)} (h : c.Noted name)
    (hfollow : c.follow d happenings = some c') : c'.Noted name := by
  induction happenings generalizing c with
  | nil =>
      cases hfollow
      exact h
  | cons happening happenings ih =>
      simp only [Course.follow, List.foldlM_cons] at hfollow
      rcases Option.bind_eq_some_iff.mp hfollow with ⟨c₁, hnext, hfollow⟩
      exact ih (h.next hnext) hfollow

end Course

/-- The line that tells of the instruction that a machine is about to execute, under the name of its
engine. There is none if nothing can be decoded. -/
def Machine.traceLine? (name : String) (m : Machine) : Option Log.Line :=
  match m.decode with
  | .ok i => some
    { level := .debug
      message := name ++ " " ++ toString m.pc ++ ": " ++ i.text
      values := [.fields [("relativeBase", .text m.base.text)]] }
  | .error _ => none

theorem Machine.map_trace? (name : String) (m : Machine) :
    m.trace?.map (Event.line name) = m.traceLine? name := by
  unfold trace? traceLine?
  cases m.decode <;> rfl

namespace Course

variable {σ : Type} {d : Device σ} {c : Course σ} {e : Engine} {s : σ} {name : String}

/-- The trace lines of the log can be told from the machines that the run has visited. -/
theorem Noted.lines_eq (h : c.Noted name) :
    c.engine.log.filter Log.Line.isTrace = c.visited.filterMap (Machine.traceLine? name) := by
  rw [Engine.filter_log, h.name_eq, h.traces_eq, List.map_filterMap]
  simp only [Machine.map_trace?]

/-- There is a line for each step that has completed an instruction, and one for the last step if it
has decoded an instruction and not completed it. -/
theorem Noted.count_eq (h : c.Noted name) :
    ∃ last, c.visited.getLast? = some last ∧
      (∀ why, last.decode = .error why → c.turn = .answered (.error why)) ∧
      c.engine.log.countP Log.Line.isTrace + c.turn.completed =
        c.engine.steps + (last.traceLine? name).toList.length := by
  rcases h.counted with ⟨earlier, last, hvisited, hsteps, hearlier, hlast⟩
  have hlines : (earlier.filterMap (Machine.traceLine? name)).length = earlier.length := by
    refine List.filterMap_length_eq_length.mpr ?_
    intro m hm
    rcases hearlier m hm with ⟨i, hi⟩
    simp [Machine.traceLine?, hi]
  have hsingle : [last].filterMap (Machine.traceLine? name) = (last.traceLine? name).toList := rfl
  refine ⟨last, by simp [hvisited], hlast, ?_⟩
  rw [List.countP_eq_length_filter, h.lines_eq, hvisited, List.filterMap_append, List.length_append,
    hlines, hsingle, hsteps]
  omega

/-- What a traced run has in its log when it has come this far. -/
structure Traces (name : String) (c : Course σ) : Prop where
  lines_eq : c.engine.log.filter Log.Line.isTrace = c.visited.filterMap (Machine.traceLine? name)
  halted : c.engine.status = .halted → c.engine.log.countP Log.Line.isTrace = c.engine.steps
  ended : c.engine.status = .ended → c.engine.log.countP Log.Line.isTrace = c.engine.steps + 1
  -- It makes a difference whether the last step has decoded an instruction.
  faulted : ∀ why, c.engine.status = .faulted why → ∃ m, c.visited.getLast? = some m ∧
    (m.decode = .error why ∧ c.engine.log.countP Log.Line.isTrace = c.engine.steps ∨
      (∃ i, m.decode = .ok i) ∧ c.engine.log.countP Log.Line.isTrace = c.engine.steps + 1)

/-- Turns by which an engine stops, with the instructions that they complete. -/
theorem completed_of_status (turn : Turn (Option Ending)) :
    (turn.status = .halted → turn.completed = 1) ∧ (turn.status = .ended → turn.completed = 0) ∧
      ∀ why, turn.status = .faulted why → turn.completed = 0 := by
  rcases turn with (why | (_ | (_ | _))) | pending <;> simp [Turn.status, Turn.completed]

theorem Noted.traces (h : c.Noted name) : c.Traces name := by
  rcases h.count_eq with ⟨last, hvisited, hlast, hcount⟩
  rcases completed_of_status c.turn with ⟨hhalted, hended, hfaulted⟩
  rw [← h.status_eq] at hhalted hended hfaulted
  cases hdecode : last.decode with
  | error why =>
      have hstatus : c.engine.status = .faulted why := by
        rw [h.status_eq, hlast why hdecode]
        rfl
      have hnone : (last.traceLine? name).toList.length = 0 := by simp [Machine.traceLine?, hdecode]
      rw [hnone, hfaulted why hstatus] at hcount
      refine ⟨h.lines_eq, ?_, ?_, ?_⟩
      · intro hhalt
        cases hstatus.symm.trans hhalt
      · intro hend
        cases hstatus.symm.trans hend
      · intro why' hfault
        cases hstatus.symm.trans hfault
        exact ⟨last, hvisited, .inl ⟨hdecode, hcount⟩⟩
  | ok i =>
      have hone : (last.traceLine? name).toList.length = 1 := by simp [Machine.traceLine?, hdecode]
      rw [hone] at hcount
      refine ⟨h.lines_eq, ?_, ?_, ?_⟩
      · intro hhalt
        rw [hhalted hhalt] at hcount
        exact Nat.succ.inj hcount
      · intro hend
        rw [hended hend] at hcount
        exact hcount
      · intro why hfault
        rw [hfaulted why hfault] at hcount
        exact ⟨last, hvisited, .inr ⟨⟨i, hdecode⟩, hcount⟩⟩

/-! ### With and without a trace -/

/-- Nothing tells the second course from the first one but the lines of traced instructions, which
it does not have. -/
structure Shadows (c c' : Course σ) : Prop where
  turn_eq : c'.turn = c.turn
  outside_eq : c'.outside = c.outside
  visited_eq : c'.visited = c.visited
  outcome?_eq : c'.engine.outcome? = c.engine.outcome?
  machine_eq : c'.engine.machine = c.engine.machine
  status_eq : c'.engine.status = c.engine.status
  steps_eq : c'.engine.steps = c.engine.steps
  notices_eq : c'.engine.notices = c.engine.notices
  log_eq : c'.engine.log = c.engine.log.filter fun line => !line.isTrace

theorem shadows_untraced (c : Course σ) : c.Shadows c.untraced where
  turn_eq := rfl
  outside_eq := rfl
  visited_eq := rfl
  outcome?_eq := rfl
  machine_eq := rfl
  status_eq := rfl
  steps_eq := rfl
  notices_eq := c.engine.notices_untraced
  log_eq := c.engine.log_untraced

/-- What a run comes to, it comes to by going on from instruction to instruction. -/
theorem follow_of_runOn {fuel : Nat} {c : Course σ} {result : Turn RunResult}
    (h : Engine.runOn d fuel (c.engine, c.outside, c.turn) = some (e, s, result)) :
    ∃ k c', c.follow d (List.replicate k .step) = some c' ∧ c'.engine = e ∧ c'.outside = s ∧
      c'.turn.closing? e.steps = some result := by
  cases hclosing : c.turn.closing? c.engine.steps with
  | some last =>
      rw [Engine.runOn_of_closing hclosing] at h
      cases h
      exact ⟨0, c, rfl, rfl, rfl, hclosing⟩
  | none =>
      have hgoes : c.turn = .answered (.ok none) := Engine.eq_of_closing_eq_none hclosing
      rw [hgoes] at h
      cases fuel with
      | zero => cases h
      | succ fuel =>
          rcases follow_of_runOn (c := c.stepped d) h with ⟨k, c', hfollow, hlast⟩
          refine ⟨k + 1, c', ?_, hlast⟩
          have hnext : c.next d .step = some (c.stepped d) := by
            simp only [next, hgoes]
          rw [follow, List.replicate_succ, List.foldlM_cons, hnext]
          exact hfollow

/-- Two engines are loaded with the same image under the same name, one that is traced and one that is
not. Whatever happens to both of them, neither can do what the other cannot, and at each point they
differ by the lines of the traced instructions alone, which are as `Traces` says; so a whole run
comes to the same. It is one of the courses meant here, one that goes on until it stops or waits. -/
theorem tracing_only_adds (d : Device σ) (name : String) (image : Image) (s : σ) :
    (∀ happenings, Option.Rel (fun c c' => c.Shadows c' ∧ c.Traces name)
      ((start d (Engine.load name image true) s).follow d happenings)
      ((start d (Engine.load name image false) s).follow d happenings)) ∧
    (∀ fuel, (Engine.load name image false).run d fuel s =
      ((Engine.load name image true).run d fuel s).map fun r => (r.1.untraced, r.2)) ∧
    ∀ trace fuel e s' result,
      (Engine.load name image trace).run d fuel s = some (e, s', result) →
      ∃ k c, (start d (Engine.load name image trace) s).follow d (List.replicate k .step) = some c ∧
        c.engine = e ∧ c.outside = s' ∧ c.turn.closing? e.steps = some result := by
  refine ⟨?_, ?_, ?_⟩
  · intro happenings
    rw [← Engine.untraced_load, untraced_start, untraced_follow]
    cases hfollow : (start d (Engine.load name image true) s).follow d happenings with
    | none => exact .none
    | some c =>
        have hnoted := (noted_start d name image s).follow hfollow
        exact .some ⟨shadows_untraced c, hnoted.traces⟩
  · intro fuel
    rw [← Engine.untraced_load]
    exact Engine.untraced_run d fuel _ s
  · intro trace fuel e s' result hrun
    exact follow_of_runOn (c := start d (Engine.load name image trace) s) hrun

/-- This program reads its second instruction from the input. -/
theorem tracing_only_adds_read :
    let e := Engine.load "vm" (Image.ofIntegers [3, 2, 0]) true
    let l : Link := { inbound := { name := "in", buffer := [99] }, outbound := { name := "out" } }
    ∃ k c, (start Link.device e l).follow Link.device (List.replicate k .step) = some c ∧
      c.engine.status = .halted ∧ c.engine.steps = 2 ∧
      (c.engine.log.filter Log.Line.isTrace).map Log.Line.message =
        ["vm 0: INPUT [2]", "vm 2: HALT"] ∧
      ∃ c', c.Shadows c' ∧ c.Traces "vm" := by
  intro e l
  have hall := tracing_only_adds Link.device "vm" (Image.ofIntegers [3, 2, 0]) l
  have hrun : (e.run Link.device 1 l).map (fun r =>
      (r.1.status, r.1.steps, (r.1.log.filter Log.Line.isTrace).map Log.Line.message)) =
        some (.halted, 2, ["vm 0: INPUT [2]", "vm 2: HALT"]) := by decide +kernel
  rcases Option.map_eq_some_iff.mp hrun with ⟨⟨e', l', result⟩, hresult, hends⟩
  rcases hall.2.2 true 1 e' l' result hresult with ⟨k, c, hfollow, rfl, -⟩
  have hrel := hall.1 (List.replicate k .step)
  rw [hfollow] at hrel
  simp only [Prod.mk.injEq] at hends
  rcases hends with ⟨hstatus, hsteps, hlines⟩
  refine ⟨k, c, hfollow, hstatus, hsteps, hlines, ?_⟩
  generalize (start Link.device (Engine.load "vm" (Image.ofIntegers [3, 2, 0]) false) l).follow
    Link.device (List.replicate k .step) = other at hrel
  cases hrel with
  | some hcourses => exact ⟨_, hcourses⟩

end Course

end WordMachine
