import WordMachine.Proofs.Device.Overlap

/-!
# Steps that are atomic

In a timely history no two steps get into each other: once all steps have been answered they come to the
same as steps that are made one by one, with all input sent beforehand (`Overlap.steps_atomic`). What
carries the induction is `Overlap.Keeps`, said of the engine as it is when the suspended step has gone on
(`Overlap.settled`): a move is then a step without a break, or something that others do.

Steps that are called before another one has been answered may execute one instruction twice and leave
another out, and an engine that has stopped may stop once more (`Overlap.overlap_not_atomic`).
-/

namespace WordMachine

namespace Overlap

variable {x x' : Overlap} {e e₀ : Engine} {moves : List Move} {a : Move} {source : String}
  {outbound : Channel Empty}

/-! ## Steps without a break -/

def enter (x : Overlap) : Turn (Option Ending) → Overlap
  | .answered answer => { x with answers := x.answers ++ [answer] }
  | .waiting pending => { x with asking := x.asking ++ [pending] }

def stepped (x : Overlap) : Overlap :=
  let (engine, gate, turn) := x.engine.step Gate.device x.gate
  enter { x with engine, gate } turn

/-- The engine after the longest waiting step has gone on with a letter, without a break. -/
def resumed (x : Overlap) (pending : Pending) (asking : List Pending) (letter : Except Fault Int) :
    Overlap :=
  let (engine, turn) := x.engine.resume pending (.ofLetter letter)
  enter { x with engine, asking, gone := x.gone + 1 } turn

/-- The engine when all steps that wait for nothing have been answered, in the order of their calls. -/
def settled (x : Overlap) : Overlap :=
  x.busy.foldl
    (fun y midway =>
      { y with
        engine := (y.engine.land midway).1
        answers := y.answers ++ [(y.engine.land midway).2] })
    { x with busy := [] }

theorem settled_of_free (h : x.busy = []) : x.settled = x := by
  rcases x with ⟨engine, gate, asking, gone, busy, answers⟩
  cases h
  rfl

theorem settled_of_single {midway : Midway} (h : x.busy = [midway]) :
    x.settled = { x with
      engine := (x.engine.land midway).1
      busy := []
      answers := x.answers ++ [(x.engine.land midway).2] } := by
  rcases x with ⟨engine, gate, asking, gone, busy, answers⟩
  cases h
  rfl

/-- A step that is called when none is in the middle of its instruction comes to a step without a break,
once it has settled. -/
theorem settled_step (hfree : x.busy = []) (hact : x.act .step = some x') : x'.settled = x.stepped := by
  rcases x with ⟨engine, gate, asking, gone, busy, answers⟩
  cases hfree
  simp only [act, Option.some.injEq] at hact
  subst hact
  simp only [stepped, Engine.step_eq_meet, engine.demand_eq_onset]
  rcases engine.onset with ⟨e, answer | pending | value | result⟩
  · rfl
  · rfl
  · simp only [Onset.demand, Demand.meet, Engine.settle_eq_land]
    rfl
  · rfl

/-- A step that goes on is the longest waiting one. When none is in the middle of its instruction, it
comes to a step that goes on without a break, once it has settled. -/
theorem exists_of_take (h : x.act .take = some x') : ∃ pending asking letter,
    x.asking = pending :: asking ∧ x.letter? = some letter ∧
      x' = { x with
        engine := (x.engine.accept pending letter).1
        asking
        gone := x.gone + 1
        busy := x.busy ++ [.executed (x.engine.accept pending letter).2] } ∧
      (x.busy = [] → x'.settled = x.resumed pending asking letter) := by
  cases hasking : x.asking with
  | nil => simp [act, hasking] at h
  | cons pending asking =>
      cases hletter : x.letter? with
      | none => simp [act, hasking, hletter] at h
      | some letter =>
          simp only [act, hasking, hletter, Option.some.injEq] at h
          subst h
          refine ⟨pending, asking, letter, rfl, rfl, rfl, ?_⟩
          intro hfree
          simp only [hfree, resumed, Engine.resume_ofLetter]
          rfl

/-- A step that goes on alone comes to the same in the end. -/
theorem settled_proceed {midway : Midway} {i : Nat} (hsingle : x.busy = [midway])
    (hact : x.act (.proceed i) = some x') : x'.settled = x.settled := by
  rcases x with ⟨engine, gate, asking, gone, busy, answers⟩
  cases hsingle
  cases i with
  | zero =>
      cases midway <;> cases hact <;> rfl
  | succ i => cases hact

/-! ## One engine beside another -/

/-- An engine stands where the engine of an overlap does. The latter may have begun to run already, if it
has done nothing but ask for input. -/
inductive Level (e : Engine) (x : Overlap) : Prop where
  | same (like : e.Like x.engine)
  | begun (idle : e.status = .idle) (like : ({ e with status := .running } : Engine).Like x.engine)
      (asked : x.asking ≠ [])

/-- Whatever the overlapping engine would do next, the engine alone would do as well. -/
theorem Level.demand (h : Level e x) : e.demand.Like x.engine.demand := by
  cases h with
  | same like => exact like.demand
  | begun idle like asked =>
      have hgoing : e.status.stop? = none := by
        rw [idle]
        rfl
      rw [← Engine.demand_running hgoing]
      exact like.demand

/-- An engine on the level of one that still goes has not stopped either. -/
theorem Level.going (h : Level e x) (hgoing : x.engine.status.stop? = none) :
    e.status.stop? = none := by
  cases h with
  | same like => exact like.status_eq ▸ hgoing
  | begun idle like asked =>
      rw [idle]
      rfl

theorem Level.running (h : Level e x) :
    ({ e with status := .running } : Engine).Like { x.engine with status := .running } := by
  cases h with
  | same like => exact like.running
  | begun idle like asked => exact like.running

theorem level_of_running (hgoing : e.status.stop? = none)
    (hlike : ({ e with status := .running } : Engine).Like x.engine) (hasked : x.asking ≠ []) :
    Level e x := by
  cases hstatus : e.status with
  | idle => exact .begun hstatus hlike hasked
  | running =>
      exact .same ⟨hlike.name_eq, hlike.machine_eq, hlike.status_eq.trans hstatus.symm, hlike.steps_eq⟩
  | _ => simp [hstatus, Status.stop?] at hgoing

theorem Level.like (h : Level e x) (hfree : x.asking = []) : e.Like x.engine := by
  cases h with
  | same like => exact like
  | begun idle like asked => exact absurd hfree asked

/-- What a history keeps. Whatever is still to be sent, an engine that makes its steps one by one, with
everything sent beforehand, comes to where this one stands. -/
structure Keeps (e₀ : Engine) (source : String) (outbound : Channel Empty) (moves : List Move)
    (x : Overlap) : Prop where
  told : x.engine.Told
  -- Whoever waits has called a step, and the engine has not been idle since.
  asked : x.engine.status = .idle → x.asking = []
  called : x.answers.length + x.asking.length = moves.count .step
  inbound : ∃ uses, x.gate.inbound.Accounts source uses ∧
    Use.sent uses = Use.sent (Move.uses moves) ∧ (.close ∈ uses ↔ .close ∈ Move.uses moves)
  -- For all that may be sent in the end: what has been sent so far is only the beginning of it.
  alone : ∀ values closed, Use.Begins (Move.uses moves) values closed → ∃ e,
    e₀.OneByOne Link.device (Link.holding source values closed outbound) x.answers e
        (Link.holding source (values.drop x.gone) closed x.gate.outbound) ∧
      Level e x

theorem keeps_start (htold : e₀.Told) (source : String) (outbound : Channel Empty) :
    Keeps e₀ source outbound [] (start e₀ source outbound) where
  told := htold
  asked := fun _ => rfl
  called := rfl
  inbound := ⟨[], Traffic.accounts_start source, rfl, Iff.rfl⟩
  alone := fun _ _ _ => ⟨e₀, .start, .same ⟨rfl, rfl, rfl, rfl⟩⟩

/-- What others do to the channel is there for the other engine beforehand. -/
theorem Keeps.use (h : Keeps e₀ source outbound moves x) {u : Use} (hoften : [a].count .step = 0)
    (huse : Move.uses [a] = [u]) :
    Keeps e₀ source outbound (moves ++ [a]) { x with gate := x.gate.use u } where
  told := h.told
  asked := h.asked
  called := by rw [List.count_append, hoften, Nat.add_zero]; exact h.called
  inbound := by
    rcases h.inbound with ⟨uses, haccounts, hsent, hclose⟩
    refine ⟨uses ++ [u], haccounts.use u, ?_, ?_⟩
    · simp only [Move.uses_append, huse, Use.sent_append, hsent, hclose]
    · simp only [Move.uses_append, huse, List.mem_append, hclose]
  alone := by
    intro values closed hbegins
    rw [Move.uses_append] at hbegins
    rcases h.alone values closed hbegins.of_append with ⟨e, hsteps, hlevel⟩
    refine ⟨e, hsteps, ?_⟩
    cases hlevel with
    | same like => exact .same like
    | begun idle like asked => exact .begun idle like asked

/-- Letting a finished instruction be booked is no step of its own: `settled` has booked it already. -/
theorem Keeps.proceed {i : Nat} (h : Keeps e₀ source outbound moves x) :
    Keeps e₀ source outbound (moves ++ [.proceed i]) x where
  told := h.told
  asked := h.asked
  called := by rw [List.count_append]; exact h.called
  inbound := by
    rw [Move.uses_append]
    exact (List.append_nil (Move.uses moves)).symm ▸ h.inbound
  alone := by
    rw [Move.uses_append]
    exact (List.append_nil (Move.uses moves)).symm ▸ h.alone

/-- An engine that a step waits for, and that has not stopped, runs. -/
theorem Keeps.running_of_asking (h : Keeps e₀ source outbound moves x) (hasking : x.asking ≠ [])
    (hgoing : x.engine.status.stop? = none) : x.engine.status = .running := by
  cases hstatus : x.engine.status with
  | running => rfl
  | idle => exact absurd (h.asked hstatus) hasking
  | _ => simp [hstatus, Status.stop?] at hgoing

/-- A step that is answered is a step of the other engine. -/
theorem Keeps.answer {answer : Except Fault (Option Ending)} (h : Keeps e₀ source outbound moves x)
    (htold : x'.engine.Told) (hidle : x'.engine.status ≠ .idle)
    (hanswers : x'.answers = x.answers ++ [answer]) (hinbound : x'.gate.inbound = x.gate.inbound)
    (hcount : x'.asking.length + 1 = x.asking.length + [a].count .step)
    (huses : Move.uses [a] = [])
    (hstep : ∀ e values closed, Level e x → Use.Begins (Move.uses moves) values closed → ∃ e',
      e.step Link.device (Link.holding source (values.drop x.gone) closed x.gate.outbound) =
          (e', Link.holding source (values.drop x'.gone) closed x'.gate.outbound, .answered answer) ∧
        e'.Like x'.engine) :
    Keeps e₀ source outbound (moves ++ [a]) x' where
  told := htold
  asked := fun h => absurd h hidle
  called := by
    have hcalled := h.called
    rw [hanswers, List.length_append, List.length_singleton, List.count_append]
    omega
  inbound := by
    rw [hinbound, Move.uses_append, huses, List.append_nil]
    exact h.inbound
  alone := by
    intro values closed hbegins
    rw [Move.uses_append, huses, List.append_nil] at hbegins
    rcases h.alone values closed hbegins with ⟨e, hsteps, hlevel⟩
    rcases hstep e values closed hlevel hbegins with ⟨e', hmade, hlike⟩
    rw [hanswers]
    exact ⟨e', hsteps.step hmade, .same hlike⟩

/-- A step that asks for input leaves the other engine where it is. -/
theorem Keeps.ask {e₁ : Engine} {pending : Pending} (h : Keeps e₀ source outbound moves x)
    (hdemand : x.engine.demand = .input e₁ pending) :
    Keeps e₀ source outbound (moves ++ [.step])
      { x with engine := e₁, gate := x.gate.use .receive, asking := x.asking ++ [pending] } := by
  rcases Engine.eq_of_demand_eq_input hdemand with ⟨dest, hgoing, -, rfl, -⟩
  have huses : Move.uses (moves ++ [.step]) = Move.uses moves := by
    rw [Move.uses_append]
    exact List.append_nil _
  refine ⟨?_, ?_, ?_, ?_, ?_⟩
  · refine Engine.told_of_going ?_ (x.engine.going_executing _)
    rw [Engine.notices_executing]
    exact h.told.notices_eq hgoing
  · intro hidle
    rw [Engine.status_executing] at hidle
    cases hidle
  · have hcalled := h.called
    rw [List.length_append, List.length_singleton, List.count_append, List.count_singleton_self]
    exact congrArg Nat.succ hcalled
  · rcases h.inbound with ⟨uses, haccounts, hsent, hclose⟩
    rw [huses]
    refine ⟨uses ++ [.receive], haccounts.use .receive, ?_, ?_⟩
    · rw [Use.sent_receive, hsent]
    · simp [hclose]
  · intro values closed hbegins
    rw [huses] at hbegins
    rcases h.alone values closed hbegins with ⟨e, hsteps, hlevel⟩
    have hlike := hlevel.running.trans (x.engine.like_executing (.input dest))
    exact ⟨e, hsteps, level_of_running (hlevel.going hgoing) hlike (by simp)⟩

/-- A step that is called while no other one is in the middle of its instruction is a step of the
engine alone, which may have to ask first. -/
theorem Keeps.stepped (h : Keeps e₀ source outbound moves x) :
    Keeps e₀ source outbound (moves ++ [.step]) x.stepped := by
  have htold := h.told.step Gate.device x.gate
  have hidle := x.engine.status_step_ne_idle Gate.device x.gate
  rw [Overlap.stepped, Engine.step_eq_meet]
  rw [Engine.step_eq_meet] at htold hidle
  cases hdemand : x.engine.demand with
  | input e₁ pending => exact h.ask hdemand
  | nothing e₁ answer =>
      rw [hdemand] at htold hidle
      refine h.answer htold hidle rfl rfl rfl rfl ?_
      intro e values closed hlevel hbegins
      rcases (hdemand ▸ hlevel.demand).of_nothing with ⟨e', hwants, hlike⟩
      rw [Engine.step_eq_meet, hwants]
      exact ⟨e', rfl, hlike⟩
  | output e₁ w =>
      rw [hdemand] at htold hidle
      rcases e₁.answered_settle (Gate.device.emit w.toInt x.gate).1 with ⟨answer, hanswer⟩
      have hinbound : (Gate.device.emit w.toInt x.gate).2.inbound = x.gate.inbound := by
        simp only [Gate.device, Gate.emit]
        split <;> rfl
      simp only [Demand.meet, hanswer, enter] at htold hidle ⊢
      refine h.answer htold hidle rfl hinbound rfl rfl ?_
      intro e values closed hlevel hbegins
      rcases (hdemand ▸ hlevel.demand).of_output with ⟨e', hwants, hlike⟩
      have hsettle := hlike.settle (Gate.device.emit w.toInt x.gate).1
      refine ⟨_, ?_, hsettle.1⟩
      rw [Engine.step_eq_meet, hwants]
      simp only [Demand.meet, Gate.emit_holding, ← hsettle.2, hanswer]

/-- A step that goes on with a letter becomes the next step of the engine alone, which finds the
same letter by polling. -/
theorem Keeps.resumed {pending : Pending} {asking : List Pending} {letter : Except Fault Int}
    (h : Keeps e₀ source outbound moves x) (hasking : x.asking = pending :: asking)
    (hletter : x.letter? = some letter) (hasks : x.engine.Asks pending) :
    Keeps e₀ source outbound (moves ++ [.take]) (x.resumed pending asking letter) := by
  rcases hasks with ⟨e₁, hdemand⟩
  rcases x.engine.answered_resume pending letter with ⟨answer, hanswer⟩
  rcases Engine.eq_of_demand_eq_input hdemand with ⟨dest, hgoing, -, rfl, -⟩
  have hrunning := h.running_of_asking (by simp [hasking]) hgoing
  have hagrees := Engine.agrees_resume hrunning pending (.ofLetter letter)
  have htold := Engine.told_resume (h.told.notices_eq hgoing) hgoing pending (.ofLetter letter)
  simp only [Overlap.resumed, hanswer, enter]
  refine h.answer htold ?_ rfl rfl ?_ rfl ?_
  · rw [hagrees.status_eq]
    exact Engine.status_ne_idle _
  · simp [hasking]
  · intro e values closed hlevel hbegins
    rcases h.inbound with ⟨uses, haccounts, hsent, hclose⟩
    have hdue : Use.due source uses x.gone = some letter :=
      (haccounts.map_answer x.gone).symm.trans hletter
    have hrequest := Link.request_holding (hbegins.congr hsent hclose) hdue x.gate.outbound
    -- Asking for input has changed nothing, so the step that goes on is the other engine's whole step.
    have hexecuting := (x.engine.like_executing (.input dest)).symm
    have hback : (x.engine.executing (.input dest)).Like x.engine :=
      ⟨hexecuting.name_eq, hexecuting.machine_eq, hrunning.trans hexecuting.status_eq,
        hexecuting.steps_eq⟩
    rcases (hdemand ▸ hlevel.demand).of_input with ⟨e', hwants, hlike⟩
    have hresume := (hlike.trans hback).resume pending (.ofLetter letter)
    refine ⟨_, ?_, hresume.1⟩
    rw [Engine.step_eq_meet, hwants]
    simp only [Demand.meet, hrequest, ← hresume.2, hanswer]

/-! ## Timely histories -/

/-- At most one step is in the middle of its instruction, and the engine runs meanwhile. -/
inductive Tidy (x : Overlap) : Prop where
  | free (free : x.busy = [])
  | midway {midway : Midway} (single : x.busy = [midway]) (running : x.engine.status = .running)
      (untold : x.engine.notices = [])

/-- A stopped engine has nothing left to book. -/
theorem Tidy.free_of_stopped {how : Stop} (h : x.Tidy) (hstop : x.engine.status.stop? = some how) :
    x.busy = [] := by
  cases h with
  | free hfree => exact hfree
  | midway hsingle hrunning huntold =>
      rw [hrunning] at hstop
      cases hstop

/-- What becomes of a step that goes on does not depend on what others do meanwhile. -/
theorem Tidy.use (h : x.Tidy) (u : Use) :
    ({ x with gate := x.gate.use u } : Overlap).settled =
        { x.settled with gate := x.settled.gate.use u } ∧
      ({ x with gate := x.gate.use u } : Overlap).Tidy := by
  rcases x with ⟨engine, gate, asking, gone, busy, answers⟩
  cases h with
  | free hfree =>
      cases hfree
      exact ⟨rfl, .free rfl⟩
  | midway hsingle hrunning huntold =>
      cases hsingle
      exact ⟨rfl, .midway rfl hrunning huntold⟩

theorem Tidy.step (h : x.engine.Told) (hfree : x.busy = []) (hact : x.act .step = some x') :
    x'.Tidy := by
  have hsuspended := x.engine.running_of_onset
  simp only [act, Option.some.injEq] at hact
  subst hact
  cases honset : x.engine.onset.2 with
  | answered answer => exact .free hfree
  | asks pending => exact .free hfree
  | emits value =>
      rcases hsuspended (by simp [honset]) with ⟨hgoing, hrunning, hnotices⟩
      exact .midway (by simp [begun, hfree]; rfl) hrunning (hnotices.trans (h.notices_eq hgoing))
  | executed result =>
      rcases hsuspended (by simp [honset]) with ⟨hgoing, hrunning, hnotices⟩
      exact .midway (by simp [begun, hfree]; rfl) hrunning (hnotices.trans (h.notices_eq hgoing))

theorem Tidy.take (h : Keeps e₀ source outbound moves x) (htimely : x.Timely .take)
    (hact : x.act .take = some x') : x'.Tidy := by
  rcases exists_of_take hact with ⟨pending, asking, letter, hasking, -, rfl, -⟩
  rcases htimely.2 pending (by simp [hasking]) with ⟨e₁, hdemand⟩
  rcases Engine.eq_of_demand_eq_input hdemand with ⟨dest, hgoing, -⟩
  rcases x.engine.accept_untold pending letter with ⟨hstatus, hnotices⟩
  have hsingle : x.busy ++ [.executed (x.engine.accept pending letter).2] =
      [.executed (x.engine.accept pending letter).2] := by
    rw [htimely.1, List.nil_append]
  refine .midway hsingle (hstatus.trans ?_) (hnotices.trans (h.told.notices_eq hgoing))
  exact h.running_of_asking (by simp [hasking]) hgoing

/-- Booking early or late makes no difference, so `settled` does not change. -/
theorem Tidy.proceed {i : Nat} (h : x.Tidy) (hact : x.act (.proceed i) = some x') :
    x'.settled = x.settled ∧ x'.Tidy := by
  cases h with
  | free hfree => simp [Overlap.act, hfree] at hact
  | @midway midway hsingle hrunning huntold =>
      refine ⟨settled_proceed hsingle hact, ?_⟩
      rcases x with ⟨engine, gate, asking, gone, busy, answers⟩
      cases hsingle
      cases i with
      | succ i => cases hact
      | zero =>
          cases midway with
          | emitted reaction =>
              cases hact
              rcases engine.passOn_untold reaction with ⟨hstatus, hnotices⟩
              exact .midway rfl (hstatus.trans hrunning) (hnotices.trans huntold)
          | executed result =>
              cases hact
              exact .free rfl

/-- In a timely history a move comes to a step without a break, or to what others do, or to nothing. -/
theorem Keeps.act (h : Keeps e₀ source outbound moves x.settled) (htidy : x.Tidy)
    (htimely : x.Timely a) (hact : x.act a = some x') :
    Keeps e₀ source outbound (moves ++ [a]) x'.settled ∧ x'.Tidy := by
  cases a with
  | send v =>
      cases hact
      rcases htidy.use (.send v) with ⟨hsettled, htidy'⟩
      rw [hsettled]
      exact ⟨h.use rfl rfl, htidy'⟩
  | close =>
      cases hact
      rcases htidy.use .close with ⟨hsettled, htidy'⟩
      rw [hsettled]
      exact ⟨h.use rfl rfl, htidy'⟩
  | step =>
      rw [settled_of_free htimely] at h
      rw [settled_step htimely hact]
      exact ⟨h.stepped, .step h.told htimely hact⟩
  | take =>
      rw [settled_of_free htimely.1] at h
      rcases exists_of_take hact with ⟨pending, asking, letter, hasking, hletter, -, hsettled⟩
      rw [hsettled htimely.1]
      exact ⟨h.resumed hasking hletter (htimely.2 pending (by simp [hasking])), .take h htimely hact⟩
  | proceed i =>
      rcases htidy.proceed hact with ⟨hsettled, htidy'⟩
      rw [hsettled]
      exact ⟨h.proceed, htidy'⟩

theorem keeps_of_reaches (h : Reaches Timely (start e₀ source outbound) moves x) (htold : e₀.Told) :
    Keeps e₀ source outbound moves x.settled ∧ x.Tidy := by
  induction h with
  | start => exact ⟨keeps_start htold source outbound, .free rfl⟩
  | act before fine made ih => exact ih.1.act ih.2 fine made

/-! ## Steps that do not overlap -/

/-- One step is under way at most. If it waits, the engine still asks for its input. -/
inductive Single (x : Overlap) : Prop where
  | none (free : x.busy = []) (nobody : x.asking = [])
  | midway {midway : Midway} (single : x.busy = [midway]) (nobody : x.asking = [])
  | waits {pending : Pending} (free : x.busy = []) (single : x.asking = [pending])
      (asks : x.engine.Asks pending)

/-- If a step is called only when all others have been answered, no two instructions can be
interleaved. -/
theorem Single.timely (h : x.Single) (hapart : x.Apart a) (hact : x.act a = some x') : x.Timely a := by
  cases a with
  | step => exact hapart.2
  | take =>
      rcases exists_of_take hact with ⟨pending, asking, letter, hasking, -⟩
      cases h with
      | none hfree hnobody => cases hasking.symm.trans hnobody
      | midway hsingle hnobody => cases hasking.symm.trans hnobody
      | waits hfree hsingle hasks =>
          refine ⟨hfree, fun other hother => ?_⟩
          rw [hsingle] at hother
          cases hother
          exact hasks
  | send v => trivial
  | close => trivial
  | proceed i => trivial

theorem Single.act (h : x.Single) (hapart : x.Apart a) (hact : x.act a = some x') : x'.Single := by
  cases a with
  | send v =>
      cases hact
      cases h with
      | none hfree hnobody => exact .none hfree hnobody
      | midway hsingle hnobody => exact .midway hsingle hnobody
      | waits hfree hsingle hasks => exact .waits hfree hsingle hasks
  | close =>
      cases hact
      cases h with
      | none hfree hnobody => exact .none hfree hnobody
      | midway hsingle hnobody => exact .midway hsingle hnobody
      | waits hfree hsingle hasks => exact .waits hfree hsingle hasks
  | step =>
      rcases hapart with ⟨hnobody, hfree⟩
      simp only [Overlap.act, Option.some.injEq] at hact
      subst hact
      have hdemand := x.engine.demand_eq_onset
      cases honset : x.engine.onset.2 with
      | answered answer => exact .none hfree hnobody
      | asks pending =>
          rw [honset] at hdemand
          refine .waits hfree ?_ (Engine.demand_of_demand_eq_input hdemand)
          simp [begun, hnobody]
      | emits value => exact .midway (by simp [begun, hfree]; rfl) hnobody
      | executed result => exact .midway (by simp [begun, hfree]; rfl) hnobody
  | take =>
      rcases exists_of_take hact with ⟨pending, asking, letter, hasking, -, rfl, -⟩
      cases h with
      | none hfree hnobody => cases hasking.symm.trans hnobody
      | midway hsingle hnobody => cases hasking.symm.trans hnobody
      | waits hfree hsingle hasks =>
          have hempty : asking = [] := (List.cons.inj (hasking.symm.trans hsingle)).2
          exact .midway (by simp only [hfree]; rfl) hempty
  | proceed i =>
      rcases x with ⟨engine, gate, asking, gone, busy, answers⟩
      cases h with
      | none hfree hnobody =>
          cases hfree
          cases hact
      | @midway midway hsingle hnobody =>
          cases hsingle
          cases i with
          | succ i => cases hact
          | zero =>
              cases midway with
              | emitted reaction =>
                  cases hact
                  exact .midway rfl hnobody
              | executed result =>
                  cases hact
                  exact .none rfl hnobody
      | waits hfree hsingle hasks =>
          cases hfree
          cases hact

/-- Callers who await each step before they call the next one need not know about timeliness. -/
theorem timely_of_apart {x₀ : Overlap} (h : Reaches Apart x₀ moves x) (hstart : x₀.Single) :
    Reaches Timely x₀ moves x ∧ x.Single := by
  induction h with
  | start => exact ⟨.start, hstart⟩
  | act before fine made ih => exact ⟨.act ih.1 (ih.2.timely fine made) made, ih.2.act fine made⟩

/-! ## After the end -/

/-- A step that goes on in time finds an engine that has not stopped. -/
theorem act_of_stopped {how : Stop} (hstop : x.engine.status.stop? = some how) (hfree : x.busy = [])
    (htimely : x.Timely a) (hact : x.act a = some x') :
    x.engine.Still x'.engine ∧ x'.busy = [] := by
  cases a with
  | send v =>
      cases hact
      exact ⟨x.engine.still_refl, hfree⟩
  | close =>
      cases hact
      exact ⟨x.engine.still_refl, hfree⟩
  | step =>
      simp only [act, Engine.onset, hstop, begun, Option.some.injEq] at hact
      subst hact
      exact ⟨x.engine.still_refl, hfree⟩
  | take =>
      rcases exists_of_take hact with ⟨pending, asking, letter, hasking, -⟩
      rcases htimely.2 pending (by simp [hasking]) with ⟨e, hdemand⟩
      rcases Engine.eq_of_demand_eq_input hdemand with ⟨dest, hgoing, -⟩
      cases hstop.symm.trans hgoing
  | proceed i => simp [act, hfree] at hact

/-- Whatever is called on a stopped engine is refused and changes nothing. -/
theorem reaches_of_stopped {later : List Move} {how : Stop} (h : Reaches Timely x later x')
    (hstop : x.engine.status.stop? = some how) (hfree : x.busy = []) :
    x.engine.Still x'.engine ∧ x'.busy = [] := by
  induction h with
  | start => exact ⟨x.engine.still_refl, hfree⟩
  | act before fine made ih =>
      have hnext := act_of_stopped (ih.1.stop?_eq.trans hstop) ih.2 fine made
      exact ⟨ih.1.trans hnext.1, hnext.2⟩

/-! ## Atomic steps -/

/-- What a history comes to in which no two steps get into each other. -/
structure Atomic (e₀ : Engine) (source : String) (outbound : Channel Empty) (moves : List Move)
    (x : Overlap) : Prop where
  -- Every step that was called has been answered, waits or is suspended.
  called : x.answers.length + x.asking.length + x.busy.length = moves.count .step
  -- Once all are answered, the same steps made one by one on all that was sent come to the same.
  alone : x.asking = [] → x.busy = [] → ∃ e l,
    e₀.OneByOne Link.device
        (Link.holding source (Use.sent (Move.uses moves)) (decide (.close ∈ Move.uses moves)) outbound)
        x.answers e l ∧
      e.Still x.engine ∧ l.outbound = x.gate.outbound
  -- Whoever watches has been told the outcome if the engine has stopped, and nothing otherwise.
  told : x.engine.notices = x.engine.outcome?.toList
  stays : x.engine.status.stop?.isSome = true → ∀ later x', Reaches Timely x later x' →
    x.engine.Still x'.engine

theorem Keeps.atomic (h : Keeps e₀ source outbound moves x.settled) (htidy : x.Tidy)
    (htold : e₀.Told) : Atomic e₀ source outbound moves x where
  called := by
    have hcalled := h.called
    cases htidy with
    | free hfree =>
        rw [settled_of_free hfree] at hcalled
        simp [hfree, hcalled]
    | midway hsingle hrunning huntold =>
        simp only [settled_of_single hsingle, List.length_append, List.length_singleton] at hcalled
        rw [hsingle, List.length_singleton]
        omega
  alone := by
    intro hnobody hfree
    rw [settled_of_free hfree] at h
    rcases h.alone _ _ (Use.begins_self _) with ⟨e, hsteps, hlevel⟩
    have hlike := hlevel.like hnobody
    have hnotices : x.engine.notices = e.notices := by
      rw [hsteps.told htold, h.told, hlike.outcome?_eq]
    exact ⟨e, _, hsteps, ⟨hlike, hnotices⟩, rfl⟩
  told := by
    cases htidy with
    | free hfree =>
        rw [settled_of_free hfree] at h
        exact h.told
    | midway hsingle hrunning huntold => exact Engine.told_of_going huntold (by rw [hrunning]; rfl)
  stays := by
    intro hstopped later x' hlater
    rcases Option.isSome_iff_exists.mp hstopped with ⟨how, hstop⟩
    exact (reaches_of_stopped hlater hstop (htidy.free_of_stopped hstop)).1

/-- Steps are atomic in a timely history: if no step is called, and none goes on that has waited for input,
while another one is in the middle of its instruction, and whoever has waited goes on while the engine
still asks for that input. However steps, sends and closings are interleaved then, once all steps have
been answered they come to the same as just as many steps that are made one by one, with all values sent
and the channel closed beforehand: the answers, registers and memory, the status and the count, what has
been emitted and what whoever watches has been told. An engine that has stopped has told so once, and stays
as it is. Histories in which each step is called when all others have been answered are timely. -/
theorem steps_atomic (name : String) (trace : Bool) (image : Image) (source : String)
    (outbound : Channel Empty) (moves : List Move) (x : Overlap) :
    (Reaches Timely (start (Engine.load name image trace) source outbound) moves x →
      x.Atomic (Engine.load name image trace) source outbound moves) ∧
    (Reaches Apart (start (Engine.load name image trace) source outbound) moves x →
      Reaches Timely (start (Engine.load name image trace) source outbound) moves x) := by
  constructor
  · intro h
    rcases keeps_of_reaches h rfl with ⟨hkeeps, htidy⟩
    exact hkeeps.atomic htidy rfl
  · intro h
    exact (timely_of_apart h (.none rfl rfl)).1

/-- A program that asks for a value over and over. Two steps wait for the first one; between their going
on, the engine comes back to the instruction. The same program with steps that do not overlap. -/
theorem steps_atomic_overlapping :
    (∃ x, Reaches Timely
        (start (Engine.load "engine" (Image.ofIntegers [3, 7, 1105, 1, 0])) "in" { name := "out" })
        [.step, .step, .send 5, .take, .proceed 0, .step, .proceed 0, .send 6, .take, .proceed 0] x ∧
      x.asking = [] ∧ x.busy = [] ∧ x.engine.machine.memory.peek 7 = 6 ∧
      x.Atomic (Engine.load "engine" (Image.ofIntegers [3, 7, 1105, 1, 0])) "in" { name := "out" }
        [.step, .step, .send 5, .take, .proceed 0, .step, .proceed 0, .send 6, .take, .proceed 0]) ∧
    ∃ x, Reaches Apart
        (start (Engine.load "engine" (Image.ofIntegers [3, 7, 1105, 1, 0])) "in" { name := "out" })
        [.step, .send 5, .take, .proceed 0] x ∧
      Reaches Timely
        (start (Engine.load "engine" (Image.ofIntegers [3, 7, 1105, 1, 0])) "in" { name := "out" })
        [.step, .send 5, .take, .proceed 0] x := by
  constructor
  · have hstart : Reaches Timely
        (start (Engine.load "engine" (Image.ofIntegers [3, 7, 1105, 1, 0])) "in" { name := "out" })
        [] _ := .start
    have hasked := (hstart.act (a := .step) rfl rfl).act (a := .step) rfl rfl
    have hfirst := ((hasked.act (a := .send 5) trivial rfl).act (a := .take)
      ⟨rfl, fun _ h => by cases h; exact ⟨_, rfl⟩⟩ rfl).act (a := .proceed 0) trivial rfl
    have hback := (hfirst.act (a := .step) rfl rfl).act (a := .proceed 0) trivial rfl
    have hsecond := ((hback.act (a := .send 6) trivial rfl).act (a := .take)
      ⟨rfl, fun _ h => by cases h; exact ⟨_, rfl⟩⟩ rfl).act (a := .proceed 0) trivial rfl
    exact ⟨_, hsecond, rfl, rfl, rfl, (steps_atomic _ _ _ _ _ _ _).1 hsecond⟩
  · have hstart : Reaches Apart
        (start (Engine.load "engine" (Image.ofIntegers [3, 7, 1105, 1, 0])) "in" { name := "out" })
        [] _ := .start
    have hasked := (hstart.act (a := .step) ⟨rfl, rfl⟩ rfl).act (a := .send 5) trivial rfl
    have hfirst := (hasked.act (a := .take) trivial rfl).act (a := .proceed 0) trivial rfl
    exact ⟨_, hfirst, (steps_atomic _ _ _ _ _ _ _).2 hfirst⟩

/-- Steps that overlap need not be atomic. If two steps wait at the first of two input instructions, that
one takes both values and the other one none. If the engine has halted while a step waits, it stops once
more when the channel is closed, and its status changes. Two steps that are called in one go hand out the
first of two values twice, or halt twice. -/
theorem overlap_not_atomic :
    (∃ x e l, Reaches Anyhow
        (start (Engine.load "engine" (Image.ofIntegers [3, 7, 3, 8, 99])) "in" { name := "out" })
        [.step, .step, .send 5, .send 6, .take, .take, .proceed 0, .proceed 0] x ∧
      x.asking = [] ∧ x.busy = [] ∧ x.answers = [.ok none, .ok none] ∧
      (Engine.load "engine" (Image.ofIntegers [3, 7, 3, 8, 99])).OneByOne Link.device
        (Link.holding "in" [5, 6] false { name := "out" }) [.ok none, .ok none] e l ∧
      e.machine.memory.peek 7 = 5 ∧ e.machine.memory.peek 8 = 6 ∧
      x.engine.machine.memory.peek 7 = 6 ∧ x.engine.machine.memory.peek 8 = 0) ∧
    (∃ x y, Reaches Anyhow
        (start (Engine.load "engine" (Image.ofIntegers [3, 7, 99])) "in" { name := "out" })
        [.step, .step, .send 5, .take, .proceed 0, .step, .proceed 0] x ∧
      Reaches Anyhow
        (start (Engine.load "engine" (Image.ofIntegers [3, 7, 99])) "in" { name := "out" })
        [.step, .step, .send 5, .take, .proceed 0, .step, .proceed 0, .close, .take, .proceed 0] y ∧
      x.engine.status = .halted ∧ y.engine.status = .ended ∧ y.asking = [] ∧ y.busy = [] ∧
      y.engine.notices = [.ok ⟨.halt, 2⟩, .ok ⟨.endOfStream, 2⟩]) ∧
    (∃ x, Reaches Anyhow
        (start (Engine.load "engine" (Image.ofIntegers [104, 5, 104, 6, 99])) "in" { name := "out" })
        [.step, .step, .proceed 0, .proceed 1, .proceed 0, .proceed 0] x ∧
      x.busy = [] ∧ x.gate.outbound.buffer = [5, 5] ∧ x.engine.machine.pc = 4) ∧
    ∃ x, Reaches Anyhow
        (start (Engine.load "engine" (Image.ofIntegers [99])) "in" { name := "out" })
        [.step, .step, .proceed 0, .proceed 0] x ∧
      x.busy = [] ∧ x.engine.notices = [.ok ⟨.halt, 1⟩, .ok ⟨.halt, 2⟩] := by
  refine ⟨?_, ?_, ?_, ?_⟩
  · have hstart : Reaches Anyhow
        (start (Engine.load "engine" (Image.ofIntegers [3, 7, 3, 8, 99])) "in" { name := "out" })
        [] _ := .start
    have hasked := (hstart.act (a := .step) trivial rfl).act (a := .step) trivial rfl
    have hsent := (hasked.act (a := .send 5) trivial rfl).act (a := .send 6) trivial rfl
    have htook := (hsent.act (a := .take) trivial rfl).act (a := .take) trivial rfl
    have hwent := (htook.act (a := .proceed 0) trivial rfl).act (a := .proceed 0) trivial rfl
    have hone : (Engine.load "engine" (Image.ofIntegers [3, 7, 3, 8, 99])).OneByOne Link.device
        (Link.holding "in" [5, 6] false { name := "out" }) [] _ _ := .start
    have htwo := (hone.step rfl).step rfl
    exact ⟨_, _, _, hwent, rfl, rfl, rfl, htwo, rfl, rfl, by decide +kernel, by decide +kernel⟩
  · have hstart : Reaches Anyhow
        (start (Engine.load "engine" (Image.ofIntegers [3, 7, 99])) "in" { name := "out" })
        [] _ := .start
    have hasked := (hstart.act (a := .step) trivial rfl).act (a := .step) trivial rfl
    have hsent := hasked.act (a := .send 5) trivial rfl
    have hwent := (hsent.act (a := .take) trivial rfl).act (a := .proceed 0) trivial rfl
    have hhalted := (hwent.act (a := .step) trivial rfl).act (a := .proceed 0) trivial rfl
    have hclosed := hhalted.act (a := .close) trivial rfl
    have hended := (hclosed.act (a := .take) trivial rfl).act (a := .proceed 0) trivial rfl
    exact ⟨_, _, hhalted, hended, rfl, rfl, rfl, rfl, rfl⟩
  · have hstart : Reaches Anyhow
        (start (Engine.load "engine" (Image.ofIntegers [104, 5, 104, 6, 99])) "in" { name := "out" })
        [] _ := .start
    have hemitted := (hstart.act (a := .step) trivial rfl).act (a := .step) trivial rfl
    have hpassed := (hemitted.act (a := .proceed 0) trivial rfl).act (a := .proceed 1) trivial rfl
    have hcounted := (hpassed.act (a := .proceed 0) trivial rfl).act (a := .proceed 0) trivial rfl
    exact ⟨_, hcounted, rfl, rfl, rfl⟩
  · have hstart : Reaches Anyhow
        (start (Engine.load "engine" (Image.ofIntegers [99])) "in" { name := "out" }) [] _ := .start
    have hexecuted := (hstart.act (a := .step) trivial rfl).act (a := .step) trivial rfl
    have hhalted := (hexecuted.act (a := .proceed 0) trivial rfl).act (a := .proceed 0) trivial rfl
    exact ⟨_, hhalted, rfl, rfl⟩

end Overlap

end WordMachine
