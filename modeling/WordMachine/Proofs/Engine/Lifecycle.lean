import WordMachine.Proofs.Device.Coupling
import WordMachine.Proofs.Engine.Like
import WordMachine.Proofs.Network.Alone
import WordMachine.Session
import Mathlib.Logic.Relation

/-!
# The life of an engine

An engine starts idle, runs, and stops once: it halts, finds the end of a stream or fails. Whoever
watches it is told when it stops, and never again.

`Session.Comes` leads an engine on a device through calls that are made one after the other, and
collects the answers of all steps on the way, those inside runs as well. `Session.lives_once` says what
holds of every engine that is led so.
-/

namespace WordMachine

/-! ## Statuses -/

namespace Status

inductive Next : Status → Status → Prop where
  | start : Next .idle .running
  | halt : Next .running .halted
  | finish : Next .running .ended
  | fail (why : Fault) : Next .running (.faulted why)

def Leads : Status → Status → Prop :=
  Relation.ReflTransGen Next

variable {a b : Status}

theorem leads_running (h : a.stop? = none) : a.Leads .running := by
  cases a with
  | idle => exact .single .start
  | running => exact .refl
  | _ => cases h

/-- A turn brings an engine that runs along one move at most. -/
theorem running_leads (turn : Turn (Option Ending)) : Status.running.Leads turn.status := by
  rcases turn with (why | (_ | (_ | _))) | pending
  · exact .single (.fail why)
  · exact .refl
  · exact .single .halt
  · exact .single .finish
  · exact .refl

end Status

/-! ## Notices -/

namespace Engine

variable {σ : Type} {d : Device σ} {e e' e₁ : Engine} {s s' : σ}

@[simp] theorem notices_begin (e : Engine) : e.begin.notices = e.notices := by
  simp [notices, begin, Event.notice?]

@[simp] theorem notices_executing (e : Engine) (i : Instruction) :
    (e.executing i).notices = e.notices := by
  unfold executing note
  split <;> simp [notices, Event.notice?]

theorem going_executing (e : Engine) (i : Instruction) : (e.executing i).status.stop? = none := by
  rw [status_executing]
  rfl

/-- The fault is announced at the moment of failure. -/
@[simp] theorem notices_fail (e : Engine) (why : Fault) :
    (e.fail why).notices = e.notices ++ [.error why] := by
  simp [notices, fail, Event.notice?]

/-- The ending is announced together with the number of completed instructions. -/
@[simp] theorem notices_finish (e : Engine) (ending : Ending) :
    (e.finish ending).notices = e.notices ++ [.ok ⟨ending, e.steps⟩] := by
  simp [notices, finish, Event.notice?]

/-- Whoever watches the engine has been told how it stopped, once, and nothing if it has not stopped. -/
def Told (e : Engine) : Prop :=
  e.notices = e.outcome?.toList

/-- Nobody is told anything about an engine that still goes. -/
theorem Told.notices_eq (h : e.Told) (hgoing : e.status.stop? = none) : e.notices = [] := by
  rw [h, outcome?_of_going hgoing]
  rfl

theorem told_of_going (h : e.notices = []) (hgoing : e.status.stop? = none) : e.Told := by
  rw [Told, h, outcome?_of_going hgoing]
  rfl

theorem told_fail (h : e.notices = []) (why : Fault) : (e.fail why).Told := by
  rw [Told, notices_fail, h]
  rfl

theorem told_finish (h : e.notices = []) (ending : Ending) : (e.finish ending).Told := by
  rw [Told, notices_finish, h]
  cases ending <;> rfl

theorem told_complete (h : e.notices = []) (hgoing : e.status.stop? = none) (effect : Effect) :
    (e.complete effect).1.Told := by
  cases effect with
  | fail why => exact told_fail h why
  | halt => exact told_finish (e := e.count) h .halt
  | proceed => exact told_of_going (e := e.count) h hgoing
  | request dest => exact told_of_going (e := e.count) h hgoing
  | emit value => exact told_of_going (e := e.count) h hgoing

theorem told_settle (h : e.notices = []) (hgoing : e.status.stop? = none)
    (reaction : Except Fault Unit) : (e.settle reaction).1.Told := by
  cases reaction with
  | error why => exact told_fail h why
  | ok _ => exact told_of_going (e := (e.withMachine (e.machine.skip .output)).count) h hgoing

theorem told_resume (h : e.notices = []) (hgoing : e.status.stop? = none) (pending : Pending)
    (reply : Reply) : (e.resume pending reply).1.Told := by
  cases reply with
  | wait => exact told_of_going h hgoing
  | endOfStream source => exact told_finish h .endOfStream
  | fault why => exact told_fail h why
  | value n =>
      exact told_complete
        (e := e.withMachine (e.machine.store .input pending.pc pending.dest (Word.ofInt n)).1) h
        hgoing _

theorem Told.begin (h : e.Told) : e.begin.Told := by
  rw [Told, notices_begin, h]
  rfl

/-- One step announces at most one stop, and only the first. -/
theorem Told.step (h : e.Told) (d : Device σ) (s : σ) : (e.step d s).1.Told := by
  cases hstop : e.status.stop? with
  | some how =>
      rw [step_of_stopped hstop]
      exact h
  | none =>
      have hnothing := h.notices_eq hstop
      rw [step_eq_meet]
      cases hdecode : e.machine.decode with
      | error why =>
          rw [demand_of_error hstop hdecode]
          exact told_fail (e := { e with status := .running }) hnothing why
      | ok i =>
          rw [demand_of_ok hstop hdecode]
          have hexecuting : (e.executing i).notices = [] := by rw [notices_executing, hnothing]
          have hrunning := e.going_executing i
          -- What is left of the step stops the engine once at most, whatever the instruction comes to.
          rcases e.machine.execute i with ⟨m, effect⟩
          cases effect with
          | request dest => exact told_resume (e := (e.executing i).withMachine m) hexecuting hrunning _ _
          | emit value => exact told_settle (e := (e.executing i).withMachine m) hexecuting hrunning _
          | proceed => exact told_complete (e := (e.executing i).withMachine m) hexecuting hrunning _
          | halt => exact told_complete (e := (e.executing i).withMachine m) hexecuting hrunning _
          | fail why => exact told_complete (e := (e.executing i).withMachine m) hexecuting hrunning _

/-- Nothing about the engine differs but what it has recorded, and nobody has been told anything. -/
structure Still (e e' : Engine) : Prop where
  like : e.Like e'
  notices_eq : e'.notices = e.notices

theorem still_refl (e : Engine) : e.Still e :=
  ⟨⟨rfl, rfl, rfl, rfl⟩, rfl⟩

theorem still_begin (e : Engine) : e.Still e.begin :=
  ⟨e.like_begin, e.notices_begin⟩

/-- Refused calls may come in any number. -/
theorem Still.trans (h : e.Still e') (h' : e'.Still e₁) : e.Still e₁ :=
  ⟨h.like.trans h'.like, h'.notices_eq.trans h.notices_eq⟩

theorem Still.stop?_eq (h : e.Still e') : e'.status.stop? = e.status.stop? :=
  congrArg Status.stop? h.like.status_eq

/-! ## What calls keep -/

/-- A step with this answer has completed an instruction. -/
def completes : Except Fault (Option Ending) → Bool
  | .ok none => true
  | .ok (some .halt) => true
  | _ => false

/-- The answers of the steps that a run makes from the given one on. -/
def answersOn (d : Device σ) :
    Nat → Engine × σ × Turn (Option Ending) → List (Except Fault (Option Ending))
  | fuel + 1, (e, s, .answered (.ok none)) => .ok none :: answersOn d fuel (step d e s)
  | _, (_, _, turn) => turn.answer?.toList

/-- The answer of a step tells whether it completed an instruction. -/
theorem countP_completes (turn : Turn (Option Ending)) :
    turn.answer?.toList.countP completes = turn.completed := by
  rcases turn with (why | (_ | (_ | _))) | pending <;> rfl

theorem answersOn_of_closing {turn : Turn (Option Ending)} {result : Turn RunResult}
    (h : turn.closing? e.steps = some result) (fuel : Nat) :
    answersOn d fuel (e, s, turn) = turn.answer?.toList := by
  rcases turn with (why | (_ | (_ | _))) | pending
  · cases fuel <;> rfl
  · cases h
  · cases fuel <;> rfl
  · cases fuel <;> rfl
  · cases fuel <;> rfl

/-- Steps with the given answers may have brought the one engine to the other. -/
structure Passed (e : Engine) (made : List (Except Fault (Option Ending))) (e' : Engine) : Prop where
  told : e'.Told
  steps_eq : e'.steps = e.steps + made.countP completes
  leads : e.status.Leads e'.status

variable {made later : List (Except Fault (Option Ending))}

theorem Told.passed (h : e.Told) : e.Passed [] e :=
  ⟨h, rfl, .refl⟩

/-- Stretches of a life can be joined, answers and all. -/
theorem Passed.trans (h : e.Passed made e₁) (h' : e₁.Passed later e') :
    e.Passed (made ++ later) e' where
  told := h'.told
  steps_eq := by rw [h'.steps_eq, h.steps_eq, List.countP_append, Nat.add_assoc]
  leads := h.leads.trans h'.leads

/-- What a turn says about the engine is all that a stretch of one step has to say. -/
theorem Agrees.passed {turn : Turn (Option Ending)} (h : e'.Agrees e.steps turn) (htold : e'.Told)
    (hgoing : e.status.stop? = none) : e.Passed turn.answer?.toList e' where
  told := htold
  steps_eq := by rw [h.steps_eq, countP_completes]
  leads := by
    rw [h.status_eq]
    exact (Status.leads_running hgoing).trans (Status.running_leads turn)

theorem Told.passed_step (h : e.Told) (d : Device σ) (s : σ) :
    e.Passed (e.step d s).2.2.answer?.toList (e.step d s).1 := by
  cases hstop : e.status.stop? with
  | some how =>
      rw [step_of_stopped hstop]
      exact ⟨h, rfl, .refl⟩
  | none => exact (agrees_step hstop d s).passed (h.step d s) hstop

/-- A late reply ends the step that asked for it; it counts as that step's answer. -/
theorem Told.passed_resume (h : e.Told) (hrunning : e.status = .running) (pending : Pending)
    (reply : Reply) :
    e.Passed (e.resume pending reply).2.answer?.toList (e.resume pending reply).1 := by
  have hgoing : e.status.stop? = none := by
    rw [hrunning]
    rfl
  exact (agrees_resume hrunning pending reply).passed
    (told_resume (h.notices_eq hgoing) hgoing pending reply) hgoing

/-- What the steps of a run keep, the run keeps. The induction is on the fuel, as the run is. -/
theorem Passed.runOn {e e₁ : Engine} {s : σ} {fuel : Nat} {turn : Turn (Option Ending)}
    {result : Turn RunResult} (h : e.Passed turn.answer?.toList e₁)
    (hrun : Engine.runOn d fuel (e₁, s, turn) = some (e', s', result)) :
    e.Passed (answersOn d fuel (e₁, s, turn)) e' := by
  cases hclosing : turn.closing? e₁.steps with
  | some last =>
      rw [runOn_of_closing hclosing] at hrun
      cases hrun
      rw [answersOn_of_closing hclosing]
      exact h
  | none =>
      cases eq_of_closing_eq_none hclosing
      cases fuel with
      | zero => cases hrun
      | succ fuel => exact h.trans ((h.told.passed_step d s).runOn hrun)

/-- A step that waits has left the engine running. -/
theorem status_of_waiting {pending : Pending} (h : (e.step d s).2.2 = .waiting pending) :
    (e.step d s).1.status = .running := by
  rcases eq_of_demand_eq_input (demand_of_waiting h) with ⟨dest, -, -, hengine, -⟩
  rw [hengine, status_executing]

theorem status_of_runOn_waiting {e : Engine} {s : σ} {fuel : Nat} {turn : Turn (Option Ending)}
    {pending : Pending} (h : ∀ pending, turn = .waiting pending → e.status = .running)
    (hrun : runOn d fuel (e, s, turn) = some (e', s', .waiting pending)) : e'.status = .running := by
  rcases turn with (why | (_ | ending)) | asked
  · cases fuel <;> cases hrun
  · cases fuel with
    | zero => cases hrun
    | succ fuel => exact status_of_runOn_waiting (fun _ => status_of_waiting) hrun
  · cases fuel <;> cases hrun
  · rw [runOn_of_closing rfl] at hrun
    cases hrun
    exact h _ rfl

/-- A run that has been answered has stopped, with the outcome that it is answered with. -/
theorem Agrees.outcome?_of_runOn {e : Engine} {s : σ} {fuel steps : Nat}
    {turn : Turn (Option Ending)} {result : Turn RunResult} (h : e.Agrees steps turn)
    (hrun : runOn d fuel (e, s, turn) = some (e', s', result)) : e'.outcome? = result.answer? := by
  cases hclosing : turn.closing? e.steps with
  | some last =>
      rw [runOn_of_closing hclosing] at hrun
      cases hrun
      cases result with
      | answered outcome => exact h.outcome?_eq hclosing
      | waiting pending =>
          rcases turn with (why | (_ | ending)) | asked <;> cases hclosing
          rw [outcome?, h.status_eq]
          rfl
  | none =>
      cases eq_of_closing_eq_none hclosing
      cases fuel with
      | zero => cases hrun
      | succ fuel =>
          have hgoing : e.status.stop? = none := by
            rw [h.status_eq]
            rfl
          exact (agrees_step hgoing d s).outcome?_of_runOn hrun

end Engine

/-! ## Calls one after the other -/

/-- What an answer says about the end of an engine that has completed so many instructions by then. -/
def Answer.outcome? (steps : Nat) : Answer → Option (Except Fault RunResult)
  | .step (.ok none) => none
  | .step (.ok (some ending)) => some (.ok ⟨ending, steps⟩)
  | .step (.error why) => some (.error why)
  | .run result => some result

def Request.failed (why : Fault) : Request → Answer
  | .step => .step (.error why)
  | .run => .run (.error why)

namespace Session

variable {σ : Type} {d : Device σ} {s s' : Session σ} {answer? : Option Answer}
  {made later : List (Except Fault (Option Ending))} {e : Engine} {request : Request}

/-- The answers of the steps that a call makes at once. -/
def stepAnswers (d : Device σ) (fuel : Nat) (s : Session σ) :
    Request → List (Except Fault (Option Ending))
  | .step => (s.engine.step d s.outside).2.2.answer?.toList
  | .run => Engine.answersOn d fuel (s.engine.begin.step d s.outside)

def stepAnswersOn (d : Device σ) (fuel : Nat) (engine : Engine) (outside : σ) (call : Call)
    (reply : Reply) : List (Except Fault (Option Ending)) :=
  let (engine, turn) := engine.resume call.pending reply
  match call.request with
  | .step => turn.answer?.toList
  | .run => Engine.answersOn d fuel (engine, outside, turn)

/-- What can happen next to an engine that is called by one caller, with the answers of the steps that
are made. A call is made when the one before has been answered. A call that waits may get any reply, and
what is outside may change at any time. -/
inductive Takes (d : Device σ) (s : Session σ) :
    List (Except Fault (Option Ending)) → Option Answer → Session σ → Prop where
  | call {s' : Session σ} {answer? : Option Answer} (free : s.outstanding = []) (fuel : Nat)
      (request : Request) (called : s.call d fuel request = some (s', answer?)) :
      Takes d s (s.stepAnswers d fuel request) answer? s'
  | goOn {s' : Session σ} {answer? : Option Answer} {c : Call} (asked : s.outstanding = [c])
      (fuel : Nat) (outside : σ) (reply : Reply)
      (went : goOn d fuel s.engine outside [] s.nextTicket c reply = some (s', answer?)) :
      Takes d s (stepAnswersOn d fuel s.engine outside c reply) answer? s'
  -- Decoding only looks at the machine.
  | decode (decoded : Except Fault Instruction) (same : s.engine.machine.decode = decoded) :
      Takes d s [] none s
  | change (update : σ → σ) : Takes d s [] none (s.change update)

/-- Where an engine can be led, with the answers of the steps made on the way. -/
inductive Comes (d : Device σ) (s₀ : Session σ) :
    List (Except Fault (Option Ending)) → Session σ → Prop where
  | start : Comes d s₀ [] s₀
  | next {made later : List (Except Fault (Option Ending))} {s s' : Session σ}
      {answer? : Option Answer} (before : Comes d s₀ made s) (takes : Takes d s later answer? s') :
      Comes d s₀ (made ++ later) s'

/-- One call waits at most, and only in an engine that runs. -/
structure Orderly (s : Session σ) : Prop where
  told : s.engine.Told
  waits : s.outstanding = [] ∨ ∃ c, s.outstanding = [c] ∧ s.engine.status = .running

/-- The session was led to the other by steps with the given answers. If the engine had not stopped, the
caller has been told of its end if it has stopped now. -/
structure Proceeds (s : Session σ) (made : List (Except Fault (Option Ending)))
    (answer? : Option Answer) (s' : Session σ) : Prop where
  orderly : s'.Orderly
  passed : s.engine.Passed made s'.engine
  outcome?_eq : s.engine.status.stop? = none →
    s'.engine.outcome? = answer?.bind (Answer.outcome? s'.engine.steps)

/-- However a call turns out, entering it adds no steps of its own. -/
theorem proceeds_enter {α : Type} {r : Engine × σ × Turn α} {answer : Except Fault α → Answer}
    {nextTicket ticket : Nat} (hpassed : s.engine.Passed made r.1)
    (hwaits : ∀ pending, r.2.2 = .waiting pending → r.1.status = .running)
    (houtcome : s.engine.status.stop? = none →
      r.1.outcome? = (r.2.2.answer?.map answer).bind (Answer.outcome? r.1.steps))
    (henter : enter [] nextTicket ticket request answer r = (s', answer?)) :
    s.Proceeds made answer? s' := by
  rcases r with ⟨engine, outside, result | pending⟩
  · cases henter
    exact ⟨⟨hpassed.told, .inl rfl⟩, hpassed, houtcome⟩
  · cases henter
    exact ⟨⟨hpassed.told, .inr ⟨_, rfl, hwaits pending rfl⟩⟩, hpassed, houtcome⟩

/-- A step's answer tells how the engine has stopped, if it has. -/
theorem outcome?_of_agrees {steps : Nat} {turn : Turn (Option Ending)} (h : e.Agrees steps turn) :
    e.outcome? = (turn.answer?.map Answer.step).bind (Answer.outcome? e.steps) := by
  rw [Engine.outcome?, h.status_eq]
  rcases turn with (why | (_ | (_ | _))) | pending <;> rfl

theorem outcome?_of_run {steps : Nat} {result : Turn RunResult}
    (h : e.outcome? = result.answer?) :
    e.outcome? = (result.answer?.map Answer.run).bind (Answer.outcome? steps) := by
  rw [h]
  cases result <;> rfl

/-- Making a call, with the steps that it makes at once. -/
theorem Orderly.call (h : s.Orderly) (hfree : s.outstanding = []) {fuel : Nat}
    (hcall : s.call d fuel request = some (s', answer?)) :
    s.Proceeds (s.stepAnswers d fuel request) answer? s' := by
  rcases s with ⟨engine, outside, outstanding, ticket⟩
  cases hfree
  cases request with
  | step =>
      exact proceeds_enter (h.told.passed_step d outside) (fun _ => Engine.status_of_waiting)
        (fun hgoing => outcome?_of_agrees (Engine.agrees_step hgoing d outside))
        (Option.some.inj hcall)
  | run =>
      rcases Option.map_eq_some_iff.mp hcall with ⟨⟨engine', outside', result⟩, hrun, henter⟩
      have hbegin : engine.Passed [] engine.begin := ⟨h.told.begin, rfl, .refl⟩
      have hpassed : engine.Passed (Engine.answersOn d fuel (engine.begin.step d outside)) engine' :=
        hbegin.trans ((hbegin.told.passed_step d outside).runOn hrun)
      refine proceeds_enter (r := (engine', outside', result)) hpassed ?_ ?_ henter
      · rintro pending rfl
        exact Engine.status_of_runOn_waiting (fun _ => Engine.status_of_waiting) hrun
      · intro hgoing
        have hbegun : engine.begin.status.stop? = none := hgoing
        exact outcome?_of_run ((Engine.agrees_step hbegun d outside).outcome?_of_runOn hrun)

/-- Going on with a call, with the steps that it makes from then on. -/
theorem Orderly.goOn (h : s.Orderly) {c : Call} (hasked : s.outstanding = [c]) {fuel : Nat}
    {outside : σ} {reply : Reply}
    (hgoOn : goOn d fuel s.engine outside [] s.nextTicket c reply = some (s', answer?)) :
    s.Proceeds (stepAnswersOn d fuel s.engine outside c reply) answer? s' := by
  have hrunning : s.engine.status = .running := by
    rcases h.waits with hfree | ⟨other, -, hrunning⟩
    · cases hasked.symm.trans hfree
    · exact hrunning
  have hagrees := Engine.agrees_resume hrunning c.pending reply
  have hpassed := h.told.passed_resume hrunning c.pending reply
  have hwaits : ∀ pending, (s.engine.resume c.pending reply).2 = .waiting pending →
      (s.engine.resume c.pending reply).1.status = .running := by
    intro pending hwaiting
    rw [hagrees.status_eq, hwaiting]
    rfl
  cases hrequest : c.request with
  | step =>
      simp only [Session.goOn, hrequest] at hgoOn
      simp only [stepAnswersOn, hrequest]
      exact proceeds_enter hpassed hwaits (fun _ => outcome?_of_agrees hagrees)
        (Option.some.inj hgoOn)
  | run =>
      simp only [Session.goOn, hrequest] at hgoOn
      simp only [stepAnswersOn, hrequest]
      rcases Option.map_eq_some_iff.mp hgoOn with ⟨⟨engine', outside', result⟩, hrun, henter⟩
      refine proceeds_enter (hpassed.runOn hrun) ?_ ?_ henter
      · rintro pending rfl
        exact Engine.status_of_runOn_waiting hwaits hrun
      · intro _
        exact outcome?_of_run (hagrees.outcome?_of_runOn hrun)

/-- Whatever happens next, the engine proceeds in its life. -/
theorem Takes.proceeds (h : Takes d s made answer? s') (horderly : s.Orderly) :
    s.Proceeds made answer? s' := by
  cases h with
  | call free fuel request called => exact horderly.call free called
  | goOn asked fuel outside reply went => exact horderly.goOn asked went
  | decode decoded same =>
      exact ⟨horderly, horderly.told.passed, Engine.outcome?_of_going⟩
  | change update =>
      exact ⟨⟨horderly.told, horderly.waits⟩, horderly.told.passed, Engine.outcome?_of_going⟩

/-- The run lemma: an orderly session stays so, and its engine has passed through exactly the listed
answers. -/
theorem Comes.passed {s₀ : Session σ} (h : Comes d s₀ made s) (horderly : s₀.Orderly) :
    s.Orderly ∧ s₀.engine.Passed made s.engine := by
  induction h with
  | start => exact ⟨horderly, horderly.told.passed⟩
  | next before takes ih =>
      have hproceeds := takes.proceeds ih.1
      exact ⟨hproceeds.orderly, ih.2.trans hproceeds.passed⟩

/-! ## After the end -/

variable {how : Stop}

/-- No call waits for input on a stopped engine. -/
theorem Orderly.free_of_stopped (h : s.Orderly) (hstop : s.engine.status.stop? = some how) :
    s.outstanding = [] := by
  rcases h.waits with hfree | ⟨c, -, hrunning⟩
  · exact hfree
  · rw [hrunning] at hstop
    cases hstop

/-- An engine that has stopped refuses every call, and nothing changes. -/
theorem call_of_stopped (hfree : s.outstanding = []) (hstop : s.engine.status.stop? = some how)
    (d : Device σ) (fuel : Nat) (request : Request) :
    ∃ s', s.call d fuel request = some (s', some (request.failed (.terminated s.engine.name how))) ∧
      s.engine.Still s'.engine ∧ s'.outside = s.outside := by
  rcases s with ⟨engine, outside, outstanding, ticket⟩
  cases hfree
  cases request with
  | step =>
      refine ⟨⟨engine, outside, [], ticket + 1⟩, ?_, engine.still_refl, rfl⟩
      simp only [call, Engine.step_of_stopped hstop]
      rfl
  | run =>
      have hbegin : engine.begin.status.stop? = some how := hstop
      refine ⟨⟨engine.begin, outside, [], ticket + 1⟩, ?_, engine.still_begin, rfl⟩
      have hrun : Engine.runOn d fuel (engine.begin, outside,
          .answered (.error (.terminated engine.name how))) = some _ := Engine.runOn_of_closing rfl fuel
      simp only [call, Engine.run, Engine.step_of_stopped hbegin]
      exact congrArg (Option.map _) hrun

theorem Takes.still (h : Takes d s made answer? s') (horderly : s.Orderly)
    (hstop : s.engine.status.stop? = some how) : s.engine.Still s'.engine := by
  have hfree := horderly.free_of_stopped hstop
  cases h with
  | call free fuel request called =>
      rcases call_of_stopped hfree hstop d fuel request with ⟨s₁, hcall, hstill, -⟩
      cases called.symm.trans hcall
      exact hstill
  | goOn asked fuel outside reply went => cases asked.symm.trans hfree
  | decode decoded same => exact s.engine.still_refl
  | change update => exact s.engine.still_refl

/-- Nothing that is called on a stopped engine changes it, however often. -/
theorem Comes.still (h : Comes d s later s') (horderly : s.Orderly)
    (hstop : s.engine.status.stop? = some how) : s.engine.Still s'.engine := by
  induction h with
  | start => exact s.engine.still_refl
  | next before takes ih =>
      exact ih.trans (takes.still (before.passed horderly).1 (ih.stop?_eq.trans hstop))

/-! ## Whole lives -/

/-- The life of an engine whose steps were answered as listed. -/
structure Lives (d : Device σ) (made : List (Except Fault (Option Ending))) (s : Session σ) :
    Prop where
  -- Whoever watches has been told the outcome if the engine has stopped, and nothing otherwise.
  told : s.engine.notices = s.engine.outcome?.toList
  steps_eq : s.engine.steps = made.countP Engine.completes
  come : Status.idle.Leads s.engine.status
  onward : ∀ later s', Comes d s later s' → s.engine.status.Leads s'.engine.status
  -- The call that stops the engine is answered with what whoever watches is told.
  ends : s.engine.status.stop? = none → ∀ later answer? s', Takes d s later answer? s' →
    s'.engine.notices = (answer?.bind (Answer.outcome? s'.engine.steps)).toList
  stays : s.engine.status.stop?.isSome = true → ∀ later s', Comes d s later s' → s.engine.Still s'.engine
  refuses : ∀ how, s.engine.status.stop? = some how → ∀ fuel request, ∃ why s',
    s.call d fuel request = some (s', some (request.failed why)) ∧
      why = .terminated s.engine.name how ∧ why.code? = some "engine_terminated" ∧
      s.engine.Still s'.engine ∧ s'.outside = s.outside

theorem Orderly.lives (h : s.Orderly) (hsteps : s.engine.steps = made.countP Engine.completes)
    (hcome : Status.idle.Leads s.engine.status) : s.Lives d made where
  told := h.told
  steps_eq := hsteps
  come := hcome
  onward := by
    intro later s' hcomes
    exact (hcomes.passed h).2.leads
  ends := by
    intro hgoing later answer? s' htakes
    have hproceeds := htakes.proceeds h
    rw [hproceeds.orderly.told, hproceeds.outcome?_eq hgoing]
  stays := by
    intro hstopped later s' hcomes
    rcases Option.isSome_iff_exists.mp hstopped with ⟨how, hstop⟩
    exact hcomes.still h hstop
  refuses := by
    intro how hstop fuel request
    rcases call_of_stopped (h.free_of_stopped hstop) hstop d fuel request with
      ⟨s', hcall, hstill, houtside⟩
    exact ⟨_, s', hcall, rfl, rfl, hstill, houtside⟩

/-- An engine lives once. Let it be called for steps and runs one after the other, on any device that
may give any replies and change in any way. Its status only moves from idle to running and from there
to one way of having stopped, where it stays. Whoever watches it has been told how it stopped, as the
call was that stopped it, and nothing before and after. It counts the steps that were answered without
an ending or with a halt. When it has stopped it refuses every call, and no call changes it or what is
outside. -/
theorem lives_once (d : Device σ) {name : String} {trace : Bool} {image : Image} {outside : σ}
    (h : Comes d { engine := Engine.load name image trace, outside } made s) : s.Lives d made := by
  have hstart : Orderly { engine := Engine.load name image trace, outside } := ⟨rfl, .inl rfl⟩
  rcases h.passed hstart with ⟨horderly, hpassed⟩
  exact horderly.lives (hpassed.steps_eq.trans (Nat.zero_add _)) hpassed.leads

/-- A program that asks for a value and halts. Its first step waits, and goes on with a value; a run makes
the last step; the run after that is refused. -/
theorem lives_once_late :
    ∃ l : Link, ∃ s : Session Link,
      Comes Link.device { engine := Engine.load "engine" (Image.ofIntegers [3, 7, 99]), outside := l }
          [.ok none, .ok (some .halt), .error (.terminated "engine" .halted)] s ∧
        s.engine.steps = 2 ∧ s.engine.notices = [.ok ⟨.halt, 2⟩] ∧
        s.Lives Link.device
          [.ok none, .ok (some .halt), .error (.terminated "engine" .halted)] := by
  have hstart : Comes Link.device
      { engine := Engine.load "engine" (Image.ofIntegers [3, 7, 99])
        outside := { inbound := { name := "in" }, outbound := { name := "out" } } } [] _ := .start
  have hasked := hstart.next (.call rfl 0 .step rfl)
  have hwent := hasked.next
    (.goOn rfl 0 { inbound := { name := "in" }, outbound := { name := "out" } } (.value 5) rfl)
  have hran := hwent.next (.call rfl 0 .run rfl)
  have hrefused := hran.next (.call rfl 0 .run rfl)
  exact ⟨_, _, hrefused, rfl, rfl, lives_once Link.device hrefused⟩

end Session

end WordMachine
