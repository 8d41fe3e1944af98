import WordMachine.Proofs.Network.Move

/-!
# Engines on their own

What an engine does between two channels of a network it does as well when it runs alone, if all the
input that it will ever get is there from the beginning. `Engine.Tracks` relates an engine of a
network to the lonely one: whatever may still be sent to it, the lonely engine has come to the same
state by the same steps. Every move keeps the relation (`Engine.Tracks.of_passes`), and so does
whatever is sent to the engine meanwhile (`Engine.Tracks.accept`).
-/

namespace WordMachine

variable {σ : Type}

/-! ## What is emitted -/

/-- A device together with the values that it has taken. -/
def Device.recording (d : Device σ) : Device (σ × List Int) where
  request s := ((d.request s.1).1, (d.request s.1).2, s.2)
  emit v s :=
    match d.emit v s.1 with
    | (.ok _, t) => (.ok (), t, s.2 ++ [v])
    | (.error why, t) => (.error why, t, s.2)

namespace Engine

variable {d : Device σ} {e e' e₀ : Engine} {s s' s₀ : σ} {inlet inlet' outlet : Channel Empty}
  {δ : Delivery} {fed out more : List Int}

/-- The values that the next step hands to a device that takes them. -/
def emission (d : Device σ) (e : Engine) (s : σ) : List Int :=
  (e.step d.recording (s, [])).2.1.2

/-- What a move emits is what it sends on the channel behind the engine. -/
theorem Passes.emission_eq : e.Passes inlet outlet e' inlet' δ →
    e.emission Link.device ⟨inlet, outlet⟩ = δ.value?.toList := by
  intro h
  simp only [emission, step_eq_meet]
  cases h with
  | send going demand opened =>
      simp [demand, Demand.meet, Device.recording, Link.device, Link.emit,
        Channel.send_of_open opened, delivery]
  | refused going demand closed =>
      simp [demand, Demand.meet, Device.recording, Link.device, Link.emit,
        Channel.send_of_closed closed, delivery]
  | alone going demand => simp [demand, Demand.meet, delivery]
  | receive going demand poll => simp [demand, Demand.meet, Device.recording, delivery]
  | ended going demand poll => simp [demand, Demand.meet, Device.recording, delivery]

/-! ## Runs step by step -/

/-- Where an engine and its device can get by steps that do not wait. -/
inductive Path (d : Device σ) (e₀ : Engine) (s₀ : σ) : Engine → σ → Prop where
  | start : Path d e₀ s₀ e₀ s₀
  | step {e e' : Engine} {s s' : σ} {answer : Except Fault (Option Ending)}
      (path : Path d e₀ s₀ e s) (hgoing : e.status.stop? = none)
      (hstep : e.step d s = (e', s', .answered answer)) : Path d e₀ s₀ e' s'

/-- A step after which the engine goes on was answered without an ending. -/
theorem Agrees.answer_eq {steps : Nat} {answer : Except Fault (Option Ending)}
    (h : e.Agrees steps (.answered answer)) (hgoing : e.status.stop? = none) :
    answer = .ok none := by
  rw [h.status_eq] at hgoing
  rcases answer with why | (_ | (_ | _))
  · cases hgoing
  · rfl
  · cases hgoing
  · cases hgoing

/-- A step after which the engine has stopped ends the run, with the engine's outcome. -/
theorem Agrees.runOn_eq {steps : Nat} {answer : Except Fault (Option Ending)}
    {outcome : Except Fault RunResult} (h : e.Agrees steps (.answered answer))
    (houtcome : e.outcome? = some outcome) (fuel : Nat) :
    runOn d fuel (e, s, .answered answer) = some (e, s, .answered outcome) := by
  rw [outcome?, h.status_eq] at houtcome
  rcases answer with why | (_ | (_ | _))
  · cases houtcome
    cases fuel <;> rfl
  · cases houtcome
  · cases houtcome
    cases fuel <;> rfl
  · cases houtcome
    cases fuel <;> rfl

theorem outcome?_of_going (hgoing : e.status.stop? = none) : e.outcome? = none := by
  cases hstatus : e.status <;> simp_all [outcome?, Status.stop?]

theorem going_of_outcome? (h : e.outcome? = none) : e.status.stop? = none := by
  cases hstatus : e.status <;> simp_all [outcome?, Status.stop?]

/-- A path is what a run walks: as long as the engine is going, the run has still to make the steps
behind the path, and when the engine has stopped, the run is over. -/
theorem Path.runOn_eq (h : Path d e₀ s₀ e s) (hstart : e₀.status.stop? = none) :
    (e.status.stop? = none → ∃ k, ∀ fuel,
      runOn d (fuel + k) (e₀.step d s₀) = runOn d fuel (e.step d s)) ∧
    ∀ outcome, e.outcome? = some outcome → ∃ fuel,
      runOn d fuel (e₀.step d s₀) = some (e, s, .answered outcome) := by
  induction h with
  | start =>
      refine ⟨fun _ => ⟨0, fun fuel => rfl⟩, ?_⟩
      intro outcome houtcome
      rw [outcome?_of_going hstart] at houtcome
      cases houtcome
  | @step e e' s s' answer path hgoing hstep ih =>
      rcases ih.1 hgoing with ⟨k, hk⟩
      have hagrees := agrees_step hgoing d s
      rw [hstep] at hagrees
      refine ⟨?_, ?_⟩
      · intro hgoing'
        have hanswer : answer = .ok none := hagrees.answer_eq hgoing'
        refine ⟨k + 1, fun fuel => ?_⟩
        calc
          runOn d (fuel + (k + 1)) (e₀.step d s₀)
              = runOn d (fuel + 1 + k) (e₀.step d s₀) := by
                rw [← Nat.add_assoc, Nat.add_right_comm]
          _ = runOn d (fuel + 1) (e.step d s) := hk (fuel + 1)
          _ = runOn d fuel (e'.step d s') := by
                rw [hstep, hanswer]
                rfl
      · intro outcome houtcome
        refine ⟨0 + k, ?_⟩
        rw [hk, hstep]
        exact hagrees.runOn_eq houtcome 0

end Engine

/-! ## The lonely engine -/

/-- A link on which `left` is still to come and no more, and on which `out` has been sent. -/
def Link.alone (left out : List Int) : Link :=
  { inbound := { name := "channel", buffer := left, closed := true }
    outbound := { name := "channel", buffer := out } }

namespace Engine

variable {e e' e₀ : Engine} {inlet inlet' outlet : Channel Empty} {δ : Delivery}
  {fed out more : List Int}

/-- A move of an engine is a step of the lonely one. If the channel before the engine is closed, what
it holds is all there is. -/
theorem Passes.step_alone (out : List Int) :
    e.Passes inlet outlet e' inlet' δ → outlet.closed = false →
      (inlet.closed = true → more = []) → ∃ answer,
      e.step Link.device (Link.alone (inlet.buffer ++ more) out) =
        (e', Link.alone (inlet'.buffer ++ more) (out ++ δ.value?.toList), .answered answer) := by
  intro h hopen hmore
  rw [step_eq_meet]
  cases h with
  | alone going demand => simp [demand, Demand.meet, delivery]
  | receive going demand poll =>
      rcases Channel.poll_eq_value_iff.mp poll with ⟨later, hbuffer, rfl⟩
      simp [demand, Demand.meet, Link.device, Link.request, Link.alone, Channel.poll, hbuffer,
        resume, delivery]
  | ended going demand poll =>
      rcases Channel.poll_eq_ended_iff.mp poll with ⟨hbuffer, hclosed⟩
      simp [demand, Demand.meet, Link.device, Link.request, Link.alone, Channel.poll, hbuffer,
        hmore hclosed, resume, delivery]
  | send going demand opened =>
      simp [demand, Demand.meet, Link.device, Link.emit, Link.alone, Channel.send, settle, delivery]
  | refused going demand closed =>
      rw [hopen] at closed
      cases closed

/-- The lonely engine that starts as `e₀`, on the input `fed` and whatever may still be sent, comes to
the state of the engine behind the channel, with the same values left and `out` emitted. -/
def Tracks (e₀ : Engine) (fed : List Int) (inlet : Channel Empty) (e : Engine) (out : List Int) :
    Prop :=
  ∀ more, (inlet.closed = true → more = []) →
    Path Link.device e₀ (Link.alone (fed ++ more) []) e (Link.alone (inlet.buffer ++ more) out)

theorem tracks_start : inlet.buffer = fed → Tracks e₀ fed inlet e₀ [] := by
  intro hfed more _
  rw [hfed]
  exact .start

/-- What is sent to the engine was still to come for the lonely one. -/
theorem Tracks.accept : Tracks e₀ fed inlet e out → (inlet.closed = true → δ.value? = none) →
    Tracks e₀ (fed ++ δ.value?.toList) (inlet.accept δ) e out := by
  intro h hopen more hmore
  have hpath := h (δ.value?.toList ++ more) <| by
    intro hclosed
    have hnone : more = [] := hmore (by simp [hclosed])
    rw [hopen hclosed, hnone]
    rfl
  simpa [Channel.buffer_accept hopen] using hpath

theorem Tracks.of_passes : Tracks e₀ fed inlet e out → outlet.closed = false →
    e.Passes inlet outlet e' inlet' δ → Tracks e₀ fed inlet' e' (out ++ δ.value?.toList) := by
  intro h hopen hpasses more hmore
  rw [hpasses.inlet_eq.1] at hmore
  rcases hpasses.step_alone out hopen hmore with ⟨answer, hstep⟩
  exact .step (h more hmore) hpasses.going hstep

end Engine

end WordMachine
