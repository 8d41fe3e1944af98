import WordMachine.Proofs.Device.Overlap

/-!
# More input than is asked for

An engine does not look ahead. On a script with more inputs behind those that it takes it makes the same
steps (`Engine.OneByOne.followedBy`), and where the shorter script leaves it without input, it stands
before the first of the others with nothing else changed (`Engine.OneByOne.resumes`). So the inputs that
a run leaves might as well not be there: `Engine.surplus_unread`.
-/

namespace WordMachine

/-! ## Longer scripts -/

namespace Script

variable {extra : List Int} {s t : Script} {e : Engine}

/-- The script with more inputs behind those that are left. -/
def followedBy (s : Script) (extra : List Int) : Script :=
  { s with supplied := s.supplied + extra.length, remaining := s.remaining ++ extra }

theorem followedBy_ofList (ws extra : List Int) :
    (ofList ws).followedBy extra = ofList (ws ++ extra) := by
  simp [ofList, followedBy]

/-- A script and a longer one reply alike until the shorter one has run out. -/
theorem couples_followedBy (extra : List Int) :
    Script.device.Couples Script.device (fun s t => t = s.followedBy extra) where
  request := by
    rintro ⟨supplied, remaining, outputs⟩ _ rfl halike
    cases remaining with
    | cons value remaining => rfl
    | nil =>
        cases extra with
        | nil => rfl
        | cons value extra => cases halike
  emit := by
    rintro s _ w rfl
    exact ⟨rfl, rfl⟩

theorem remaining_of_parts (h : e.Parts Script.device Script.device s (s.followedBy extra)) :
    s.remaining = [] := by
  rcases h with ⟨e₁, pending, -, hdiffer⟩
  rcases s with ⟨supplied, remaining, outputs⟩
  cases remaining with
  | nil => rfl
  | cons value remaining => exact absurd (.value rfl) hdiffer

end Script

/-! ## Running dry -/

namespace Engine

variable {σ : Type} {d : Device σ} {e₀ e e' e₁ : Engine} {s₀ s s' : Script} {extra : List Int}
  {answers : List (Except Fault (Option Ending))} {pending : Pending} {n : Int}

/-- The engine has failed for lack of input. -/
def Dry (e : Engine) : Prop :=
  ∃ n, e.status = .faulted (.inputExhausted n)

theorem Dry.step_eq {t : σ} (h : e.Dry) :
    e.step d t = (e, t, .answered (.error (.terminated e.name .faulted))) := by
  rcases h with ⟨n, hstatus⟩
  exact step_of_stopped (by rw [hstatus, Status.stop?])

/-- The step of an engine that asks a script without inputs. -/
theorem step_of_remaining_nil (hdemand : e.demand = .input e₁ pending) (hnone : s.remaining = []) :
    e.step Script.device s =
      (e₁.fail (.inputExhausted s.supplied), s, .answered (.error (.inputExhausted s.supplied))) := by
  rcases s with ⟨supplied, remaining, outputs⟩
  cases hnone
  rw [step_eq_meet, hdemand]
  rfl

/-- Only a script without inputs lets an engine fail for lack of input. -/
theorem demand_of_exhausted (hgoing : e.status.stop? = none)
    (h : (e.step Script.device s).2.2 = .answered (.error (.inputExhausted n))) :
    (∃ e₁ pending, e.demand = .input e₁ pending) ∧ s.remaining = [] := by
  cases hcomplaint : e.demand.complaint? Script.device s with
  | none => cases located_step hgoing hcomplaint h
  | some why =>
      cases hdemand : e.demand with
      | nothing e₁ answer =>
          rw [hdemand] at hcomplaint
          cases hcomplaint
      | output e₁ w =>
          rw [hdemand] at hcomplaint
          cases hcomplaint
      | input e₁ pending =>
          refine ⟨⟨e₁, pending, rfl⟩, ?_⟩
          rw [hdemand] at hcomplaint
          rcases s with ⟨supplied, remaining, outputs⟩
          cases remaining with
          | nil => rfl
          | cons value remaining => cases hcomplaint

/-- A step after which the engine has run dry did nothing but ask in vain. -/
theorem demand_of_dry {answer : Except Fault (Option Ending)} (hbefore : ¬ e.Dry)
    (hmade : e.step Script.device s = (e', s', .answered answer)) (hdry : e'.Dry) :
    ∃ e₁ pending, e.demand = .input e₁ pending ∧ s.remaining = [] ∧ s' = s ∧
      e'.machine = e.machine ∧ e'.steps = e.steps ∧ e.status.stop? = none := by
  cases hstop : e.status.stop? with
  | some how =>
      rw [step_of_stopped hstop] at hmade
      cases hmade
      exact absurd hdry hbefore
  | none =>
      rcases hdry with ⟨n, hstatus⟩
      have hagrees := agrees_step hstop Script.device s
      rw [hmade] at hagrees
      have hfailed : (Turn.answered answer).status = .faulted (.inputExhausted n) :=
        hagrees.status_eq.symm.trans hstatus
      have hanswer : answer = .error (.inputExhausted n) := by
        rcases answer with why | (_ | (_ | _))
        · cases hfailed
          rfl
        · cases hfailed
        · cases hfailed
        · cases hfailed
      rcases demand_of_exhausted hstop (by rw [hmade, hanswer]) with ⟨⟨e₁, pending, hdemand⟩, hnone⟩
      rw [step_of_remaining_nil hdemand hnone] at hmade
      cases hmade
      rcases eq_of_demand_eq_input hdemand with ⟨dest, -, -, rfl, -⟩
      exact ⟨_, pending, hdemand, hnone, rfl, machine_executing e _, steps_executing e _, rfl⟩

/-! ## Steps one by one -/

/-- As long as the engine has not run dry, the longer script makes no difference. -/
theorem OneByOne.followedBy (h : e₀.OneByOne Script.device s₀ answers e s) (hdry : ¬ e.Dry)
    (extra : List Int) :
    e₀.OneByOne Script.device (s₀.followedBy extra) answers e (s.followedBy extra) := by
  induction h with
  | start => exact .start
  | @step answers e e' s s' answer before made ih =>
      have hbefore : ¬ e.Dry := by
        intro hearlier
        rw [hearlier.step_eq] at made
        cases made
        exact hdry hearlier
      have hparts : ¬ e.Parts Script.device Script.device s (s.followedBy extra) := by
        intro hparts
        have hnone := Script.remaining_of_parts hparts
        rcases hparts with ⟨e₁, pending, hdemand, -⟩
        rw [step_of_remaining_nil hdemand hnone] at made
        cases made
        exact hdry ⟨_, rfl⟩
      rcases (Script.couples_followedBy extra).step rfl hparts with
        ⟨e₂, s₂, _, turn, hmade, hlonger, rfl⟩
      rw [made] at hmade
      cases hmade
      exact .step (ih hbefore) hlonger

/-- An engine that is still going has completed an instruction in each of its steps. -/
theorem OneByOne.of_going {t₀ t : σ} (h : e₀.OneByOne d t₀ answers e t)
    (hgoing : e.status.stop? = none) :
    answers = List.replicate answers.length (.ok none) ∧ e.steps = e₀.steps + answers.length := by
  induction h with
  | start => exact ⟨rfl, rfl⟩
  | @step answers e e' s s' answer before made ih =>
      cases hstop : e.status.stop? with
      | some how =>
          rw [step_of_stopped hstop] at made
          cases made
          rw [hstop] at hgoing
          cases hgoing
      | none =>
          rcases ih hstop with ⟨hanswers, hsteps⟩
          have hagrees := agrees_step hstop d s
          rw [made] at hagrees
          have hanswer : answer = .ok none := hagrees.answer_eq hgoing
          have hone : e'.steps = e.steps + (Turn.answered answer).completed := hagrees.steps_eq
          subst hanswer
          rw [List.length_append, List.length_singleton, List.replicate_succ', ← hanswers, hone, hsteps]
          exact ⟨rfl, rfl⟩

/-- What an engine that has run dry comes to if there is more to read. By as many steps as it has
completed it gets to the same place, is still going, and has all the further inputs before it. -/
structure Resumes (e₀ : Engine) (s₀ : Script) (extra : List Int) (e : Engine) (s : Script) :
    Prop where
  remaining_eq : s.remaining = []
  reaches : ∃ e₁, e₀.OneByOne Script.device (s₀.followedBy extra) (List.replicate e.steps (.ok none))
      e₁ (s.followedBy extra) ∧
    e₁.status.stop? = none ∧ e₁.steps = e.steps ∧ e₁.machine = e.machine

/-- The attempt that failed for lack of input has left no trace. -/
theorem OneByOne.resumes (h : e₀.OneByOne Script.device s₀ answers e s) (hfresh : e₀.steps = 0)
    (hstart : ¬ e₀.Dry) (hdry : e.Dry) (extra : List Int) : e₀.Resumes s₀ extra e s := by
  induction h with
  | start => exact absurd hdry hstart
  | @step answers e e' s s' answer before made ih =>
      by_cases hearlier : e.Dry
      · rw [hearlier.step_eq] at made
        cases made
        exact ih hearlier
      · rcases demand_of_dry hearlier made hdry with
          ⟨e₁, pending, -, hnone, rfl, hmachine, hsteps, hgoing⟩
        rcases before.of_going hgoing with ⟨hanswers, hcount⟩
        rw [hfresh, Nat.zero_add] at hcount
        have hsame := before.followedBy hearlier extra
        rw [hanswers, ← hcount, ← hsteps] at hsame
        exact ⟨hnone, e, hsame, hgoing, hsteps.symm, hmachine.symm⟩

/-! ## Runs -/

/-- A run makes its steps one by one, and tells what has become of the engine. -/
theorem OneByOne.of_runOn {e : Engine} {answers : List (Except Fault (Option Ending))}
    {t₀ t t' : σ} {fuel : Nat} {outcome : Except Fault RunResult} (h : e₀.OneByOne d t₀ answers e t)
    (hgoing : e.status.stop? = none)
    (hrun : runOn d fuel (e.step d t) = some (e', t', .answered outcome)) :
    e'.outcome? = some outcome ∧ ∃ answers, e₀.OneByOne d t₀ answers e' t' := by
  rcases hstep : e.step d t with ⟨e₁, t₁, turn⟩
  have hagrees := agrees_step hgoing d t
  rw [hstep] at hrun hagrees
  cases hclosing : turn.closing? e₁.steps with
  | some result =>
      rw [runOn_of_closing hclosing] at hrun
      cases hrun
      cases turn with
      | waiting pending => cases hclosing
      | answered answer => exact ⟨hagrees.outcome?_eq hclosing, _, .step h hstep⟩
  | none =>
      cases eq_of_closing_eq_none hclosing
      have hgoing₁ : e₁.status.stop? = none := by
        rw [hagrees.status_eq]
        rfl
      cases fuel with
      | zero => cases hrun
      | succ fuel => exact of_runOn (.step h hstep) hgoing₁ hrun

theorem runOn_followedBy {fuel : Nat} {outcome : Except Fault RunResult}
    (hrun : runOn Script.device fuel (e.step Script.device s) = some (e', s', .answered outcome))
    (hdry : ∀ n, outcome ≠ .error (.inputExhausted n)) (extra : List Int) :
    runOn Script.device fuel (e.step Script.device (s.followedBy extra)) =
      some (e', s'.followedBy extra, .answered outcome) := by
  have htogether := (Script.couples_followedBy extra).runOn (e := e) (s := s) rfl fuel
  generalize hlonger : runOn Script.device fuel (e.step Script.device (s.followedBy extra)) = r'
    at htogether ⊢
  rw [hrun] at htogether
  generalize hgiven : some (e', s', Turn.answered outcome) = r at htogether
  cases htogether with
  | running => cases hgiven
  | stopped before after step step' closing =>
      cases hgiven
      rw [after]
  | @parted e s t fuel before parts =>
      -- The devices part where the shorter script has run out, and there the run is over.
      subst before
      have hnone := Script.remaining_of_parts parts
      rcases parts with ⟨e₁, pending, hdemand, -⟩
      rw [step_of_remaining_nil hdemand hnone, runOn_of_closing rfl] at hgiven
      cases hgiven
      exact absurd rfl (hdry _)

/-- Surplus input is never looked at. Let an engine make steps on a script, or a run. If it has not run
dry by then, it makes the same steps with the same answers on a longer script, and the run ends with the
same outcome after the same number of steps; the engine is the same, with its registers and its memory,
has emitted the same values, and leaves the further inputs as they are. If it has run dry, as many steps
as it has completed bring it to the same registers and memory on the longer script, with the same values
emitted; there it is still going, and all the further inputs are left. -/
theorem surplus_unread (name : String) (trace : Bool) (image : Image) (ws extra : List Int) :
    let e₀ := Engine.load name image trace
    (∀ answers e s, e₀.OneByOne Script.device (Script.ofList ws) answers e s →
      (¬ e.Dry → e₀.OneByOne Script.device (Script.ofList (ws ++ extra)) answers e
        { s with supplied := s.supplied + extra.length, remaining := s.remaining ++ extra }) ∧
      (e.Dry → e₀.Resumes (Script.ofList ws) extra e s)) ∧
    ∀ fuel e s outcome,
      e₀.run Script.device fuel (Script.ofList ws) = some (e, s, .answered outcome) →
      ((∀ n, outcome ≠ .error (.inputExhausted n)) →
        e₀.run Script.device fuel (Script.ofList (ws ++ extra)) =
          some (e, { s with supplied := s.supplied + extra.length, remaining := s.remaining ++ extra },
            .answered outcome)) ∧
      ∀ n, outcome = .error (.inputExhausted n) → e₀.begin.Resumes (Script.ofList ws) extra e s := by
  intro e₀
  rw [← Script.followedBy_ofList]
  have hstart : ∀ e : Engine, e.status = .idle → ¬ e.Dry := by
    rintro e hidle ⟨n, hstatus⟩
    rw [hidle] at hstatus
    cases hstatus
  refine ⟨?_, ?_⟩
  · intro answers e s h
    exact ⟨fun hdry => h.followedBy hdry extra, fun hdry => h.resumes rfl (hstart e₀ rfl) hdry extra⟩
  · intro fuel e s outcome hrun
    refine ⟨fun hdry => runOn_followedBy hrun hdry extra, ?_⟩
    rintro n rfl
    rcases OneByOne.of_runOn .start rfl hrun with ⟨houtcome, answers, hsteps⟩
    have hdry : e.Dry := by
      refine ⟨n, ?_⟩
      rw [outcome?] at houtcome
      cases hstatus : e.status <;> simp_all
    exact hsteps.resumes rfl (hstart e₀.begin rfl) hdry extra

/-- A program that hands one number on and halts leaves what follows. One that goes on handing numbers on
runs dry after its first round, and goes on from there if there is another number. -/
theorem surplus_unread_echo :
    (∃ e s, (load "engine" (Image.ofIntegers [3, 5, 4, 5, 99])).run Script.device 5
        (Script.ofList [5]) = some (e, s, .answered (.ok ⟨.halt, 3⟩)) ∧
      (load "engine" (Image.ofIntegers [3, 5, 4, 5, 99])).run Script.device 5
        (Script.ofList ([5] ++ [6, 7])) =
        some (e, { s with supplied := 3, remaining := [6, 7] }, .answered (.ok ⟨.halt, 3⟩)) ∧
      (∀ answers e s, (load "engine" (Image.ofIntegers [3, 5, 4, 5, 99])).OneByOne Script.device
        (Script.ofList [5]) answers e s → ¬ e.Dry →
        (load "engine" (Image.ofIntegers [3, 5, 4, 5, 99])).OneByOne Script.device
          (Script.ofList ([5] ++ [6, 7])) answers e
          { s with supplied := s.supplied + 2, remaining := s.remaining ++ [6, 7] })) ∧
    ∃ e s, (load "engine" (Image.ofIntegers [3, 7, 4, 7, 1105, 1, 0])).run Script.device 5
        (Script.ofList [5]) = some (e, s, .answered (.error (.inputExhausted 1))) ∧
      e.steps = 3 ∧
      (load "engine" (Image.ofIntegers [3, 7, 4, 7, 1105, 1, 0])).begin.Resumes (Script.ofList [5])
        [6, 7] e s := by
  have hhalts : (load "engine" (Image.ofIntegers [3, 5, 4, 5, 99])).run Script.device 5
      (Script.ofList [5]) = some (_, _, .answered (.ok ⟨.halt, 3⟩)) := rfl
  have hdry : (load "engine" (Image.ofIntegers [3, 7, 4, 7, 1105, 1, 0])).run Script.device 5
      (Script.ofList [5]) = some (_, _, .answered (.error (.inputExhausted 1))) := rfl
  have hleft := surplus_unread "engine" false (Image.ofIntegers [3, 5, 4, 5, 99]) [5] [6, 7]
  have hsurplus := (hleft.2 5 _ _ _ hhalts).1
  have hmore := (surplus_unread "engine" false (Image.ofIntegers [3, 7, 4, 7, 1105, 1, 0]) [5]
    [6, 7]).2 5 _ _ _ hdry
  exact ⟨⟨_, _, hhalts, hsurplus (by rintro n ⟨⟩),
      fun answers e s hsteps hgoing => (hleft.1 answers e s hsteps).1 hgoing⟩,
    _, _, hdry, rfl, hmore.2 1 rfl⟩

end Engine

end WordMachine
