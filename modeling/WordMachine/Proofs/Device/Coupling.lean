import WordMachine.Proofs.Engine.Step

/-!
# Two devices side by side

An engine learns nothing of a device but its replies and reactions. `Device.Couples` relates the
states of two devices that react alike to every word, and that stay related as long as they reply
alike. Then an engine that runs on either of them makes the same steps, up to the first request at
which the replies differ (`Device.Couples.runOn`).
-/

namespace WordMachine

/-! ## Replies -/

/-- Two replies that an engine cannot tell apart. A value counts as the word that represents it, and the
end of a stream counts whatever its source. -/
inductive Reply.Alike : Reply → Reply → Prop where
  | value {v v' : Int} (h : Word.ofInt v = Word.ofInt v') : Alike (.value v) (.value v')
  | endOfStream (source source' : String) : Alike (.endOfStream source) (.endOfStream source')
  | fault (why : Fault) : Alike (.fault why) (.fault why)
  | wait : Alike .wait .wait

theorem Reply.Alike.resume_eq {r r' : Reply} (h : r.Alike r') (e : Engine) (pending : Pending) :
    e.resume pending r = e.resume pending r' := by
  cases h with
  | value hword => simp only [Engine.resume, hword]
  | _ => rfl

/-! ## The last step of a run -/

/-- What a run comes to whose last step has the given turn, if the step is the last one. -/
def Turn.closing? (steps : Nat) : Turn (Option Ending) → Option (Turn RunResult)
  | .answered (.ok none) => none
  | .answered (.ok (some ending)) => some (.answered (.ok ⟨ending, steps⟩))
  | .answered (.error why) => some (.answered (.error why))
  | .waiting pending => some (.waiting pending)

namespace Engine

variable {σ τ : Type} {d : Device σ} {d' : Device τ} {e : Engine} {s : σ} {t : τ}
  {turn : Turn (Option Ending)}

theorem runOn_of_closing {result : Turn RunResult} (h : turn.closing? e.steps = some result)
    (fuel : Nat) : runOn d fuel (e, s, turn) = some (e, s, result) := by
  rcases turn with (why | (_ | ending)) | pending
  · cases h
    cases fuel <;> rfl
  · cases h
  · cases h
    cases fuel <;> rfl
  · cases h
    cases fuel <;> rfl

theorem eq_of_closing_eq_none {steps : Nat} (h : turn.closing? steps = none) :
    turn = .answered (.ok none) := by
  rcases turn with (why | (_ | ending)) | pending
  · cases h
  · rfl
  · cases h
  · cases h

/-- A step that ends a run brings the engine to the run's outcome. -/
theorem Agrees.outcome?_eq {steps : Nat} {outcome : Except Fault RunResult}
    (h : e.Agrees steps turn) (hclosing : turn.closing? e.steps = some (.answered outcome)) :
    e.outcome? = some outcome := by
  rw [outcome?, h.status_eq]
  rcases turn with (why | (_ | (_ | _))) | pending
  · cases hclosing
    rfl
  · cases hclosing
  · cases hclosing
    rfl
  · cases hclosing
    rfl
  · cases hclosing

/-- More fuel than a run needs makes no difference. -/
theorem runOn_add {fuel : Nat} {r : Engine × σ × Turn (Option Ending)}
    {result : Engine × σ × Turn RunResult} (h : runOn d fuel r = some result) (more : Nat) :
    runOn d (fuel + more) r = some result := by
  rcases r with ⟨e, s, turn⟩
  cases hclosing : turn.closing? e.steps with
  | some last =>
      rw [runOn_of_closing hclosing] at h ⊢
      exact h
  | none =>
      cases eq_of_closing_eq_none hclosing
      cases fuel with
      | zero => cases h
      | succ fuel =>
          have hnext : runOn d fuel (e.step d s) = some result := h
          rw [Nat.succ_add]
          exact runOn_add hnext more

/-! ## Runs side by side -/

/-- The next step asks both devices, and their replies differ. -/
def Parts (d : Device σ) (d' : Device τ) (e : Engine) (s : σ) (t : τ) : Prop :=
  ∃ e₁ pending, e.demand = .input e₁ pending ∧ ¬ (d.request s).1.Alike (d'.request t).1

/-- How two runs of one engine compare that have begun on related devices: neither is over, or both have
made the same last step, or they have come together to a request at which the replies differ. -/
inductive Together (d : Device σ) (d' : Device τ) (R : σ → τ → Prop) :
    Option (Engine × σ × Turn RunResult) → Option (Engine × τ × Turn RunResult) → Prop where
  | running : Together d d' R none none
  | stopped {e e' : Engine} {s s' : σ} {t t' : τ} {turn : Turn (Option Ending)}
      {result : Turn RunResult} (before : R s t) (after : R s' t')
      (step : e.step d s = (e', s', turn)) (step' : e.step d' t = (e', t', turn))
      (closing : turn.closing? e'.steps = some result) :
      Together d d' R (some (e', s', result)) (some (e', t', result))
  | parted {e : Engine} {s : σ} {t : τ} (fuel : Nat) (before : R s t) (parts : e.Parts d d' s t) :
      Together d d' R (runOn d fuel (e.step d s)) (runOn d' fuel (e.step d' t))

end Engine

/-- States of two devices that react alike to every word, and that stay related as long as the devices
reply alike. -/
structure Device.Couples {σ τ : Type} (d : Device σ) (d' : Device τ) (R : σ → τ → Prop) : Prop where
  request : ∀ s t, R s t → (d.request s).1.Alike (d'.request t).1 →
    R (d.request s).2 (d'.request t).2
  emit : ∀ s t (w : Word), R s t → (d.emit w.toInt s).1 = (d'.emit w.toInt t).1 ∧
    R (d.emit w.toInt s).2 (d'.emit w.toInt t).2

namespace Device.Couples

open Engine

variable {σ τ : Type} {d : Device σ} {d' : Device τ} {R : σ → τ → Prop} {e : Engine} {s : σ} {t : τ}

/-- A step at which the devices do not part is the same on both. -/
theorem step (h : d.Couples d' R) (hs : R s t) (hparts : ¬ e.Parts d d' s t) :
    ∃ e' s' t' turn, e.step d s = (e', s', turn) ∧ e.step d' t = (e', t', turn) ∧ R s' t' := by
  simp only [step_eq_meet]
  cases hdemand : e.demand with
  | nothing e₁ answer => exact ⟨e₁, s, t, .answered answer, rfl, rfl, hs⟩
  | input e₁ pending =>
      have halike : (d.request s).1.Alike (d'.request t).1 :=
        Classical.byContradiction fun hdiffer => hparts ⟨e₁, pending, hdemand, hdiffer⟩
      refine ⟨_, _, _, _, rfl, ?_, h.request s t hs halike⟩
      simp only [Demand.meet, halike.resume_eq]
  | output e₁ w =>
      rcases h.emit s t w hs with ⟨hreaction, hafter⟩
      refine ⟨_, _, _, _, rfl, ?_, hafter⟩
      simp only [Demand.meet, hreaction]

/-- The two runs stay together until they end or the devices part. -/
theorem runOn {e : Engine} {s : σ} {t : τ} (h : d.Couples d' R) (hs : R s t) (fuel : Nat) :
    Together d d' R (Engine.runOn d fuel (e.step d s)) (Engine.runOn d' fuel (e.step d' t)) := by
  by_cases hparts : e.Parts d d' s t
  · exact .parted fuel hs hparts
  · rcases h.step hs hparts with ⟨e', s', t', turn, hstep, hstep', hafter⟩
    cases hclosing : turn.closing? e'.steps with
    | some result =>
        rw [hstep, hstep', runOn_of_closing hclosing, runOn_of_closing hclosing]
        exact .stopped hs hafter hstep hstep' hclosing
    | none =>
        rw [hstep, hstep', eq_of_closing_eq_none hclosing]
        cases fuel with
        | zero => exact .running
        | succ fuel => exact h.runOn hafter fuel

/-- Runs on devices that always reply alike come to the same. -/
theorem runOn_of_alike (h : d.Couples d' R)
    (halike : ∀ s t, R s t → (d.request s).1.Alike (d'.request t).1) (hs : R s t) (fuel : Nat) :
    (Engine.runOn d fuel (e.step d s) = none ∧ Engine.runOn d' fuel (e.step d' t) = none) ∨
      ∃ e' s' t' result, Engine.runOn d fuel (e.step d s) = some (e', s', result) ∧
        Engine.runOn d' fuel (e.step d' t) = some (e', t', result) ∧ R s' t' := by
  have htogether := h.runOn (e := e) hs fuel
  generalize Engine.runOn d fuel (e.step d s) = r at htogether ⊢
  generalize Engine.runOn d' fuel (e.step d' t) = r' at htogether ⊢
  cases htogether with
  | running => exact .inl ⟨rfl, rfl⟩
  | stopped before after step step' closing => exact .inr ⟨_, _, _, _, rfl, rfl, after⟩
  | parted fuel before parts =>
      rcases parts with ⟨e₁, pending, -, hdiffer⟩
      exact absurd (halike _ _ before) hdiffer

end Device.Couples

end WordMachine
