import WordMachine.Proofs.Device.Session

/-!
# Late input is as good as early input

What an engine comes to does not depend on when it gets its input. It may all be in the channel before
the engine starts, or be sent and ended while the engine makes its steps or waits. `late_eq_early` says
so of exchanges, where the engine waits inside the channel and acts in the smallest steps, and of
sessions, whose calls ask again when they are woken.
-/

namespace WordMachine.Engine

variable {e₀ e engine : Engine} {inlet : Channel Empty} {fed coming ws out : List Int}

/-- If the engine has stopped, having emitted `out`, then so does the run of `e₀` on a closed channel
that holds all of `ws`, with the same outcome and in the same state. -/
def EndsAsEarly (e₀ : Engine) (ws : List Int) (engine : Engine) (out : List Int) : Prop :=
  ∀ outcome, engine.outcome? = some outcome →
    ∃ fuel e l,
      (∀ more, e₀.run Link.device (fuel + more) (Link.supplied ws) = some (e, l, .answered outcome)) ∧
      e.status = engine.status ∧ e.steps = engine.steps ∧ e.machine = engine.machine ∧
      l.outbound.buffer = out

theorem supplied_eq_alone (ws : List Int) : Link.supplied ws = Link.alone ws [] :=
  Link.supplied_eq ws "channel" "channel"

/-- An engine that stops in step with the engine alone has ended as that one does when all its input
is there from the start. -/
theorem endsAsEarly_of_tracks (h : Tracks e₀.begin fed inlet e out) (hstart : e₀.status.stop? = none)
    (hlast : inlet.closed = true → coming = []) (hlike : e.Like engine) :
    e₀.EndsAsEarly (fed ++ coming) engine out := by
  intro outcome hstopped
  rw [hlike.outcome?_eq] at hstopped
  rcases ((h coming hlast).runOn_eq hstart).2 outcome hstopped with ⟨fuel, hrun⟩
  rw [supplied_eq_alone]
  exact ⟨fuel, e, _, runOn_add hrun, hlike.status_eq.symm, hlike.steps_eq.symm,
    hlike.machine_eq.symm, rfl⟩

theorem endsAsEarly_of_follow {history : List Action} {x : Exchange}
    (hstart : e₀.status.stop? = none) (hfollow : (Exchange.start e₀).follow history = some x)
    (hsent : history.filter Action.isOutside <+: Action.due false ws) :
    e₀.EndsAsEarly ws x.engine x.port.outbound.buffer := by
  rcases (Exchange.tracks_start e₀.like_begin.symm).follow (by rintro ⟨⟩) hfollow hsent with
    ⟨fed, coming, ⟨-, e, inlet, hclosed, hstands, htracks⟩, rfl, hlast, -⟩
  rcases hstands.like_or_going with hlike | ⟨-, hgoing⟩
  · exact endsAsEarly_of_tracks htracks hstart (fun h => hlast (hclosed.symm.trans h)) hlike
  · intro outcome hstopped
    cases hgoing.symm.trans hstopped

/-- Once all has been sent, an engine that would come to an end with early input can go on to the same
end, whatever it was in the middle of. -/
theorem finishes_of_follow {history : List Action} {x : Exchange} {fuel : Nat} {l : Link}
    {outcome : Except Fault RunResult} (hstart : e₀.status.stop? = none)
    (hfollow : (Exchange.start e₀).follow history = some x)
    (hall : history.filter Action.isOutside = Action.due false ws)
    (hrun : e₀.run Link.device fuel (Link.supplied ws) = some (e, l, .answered outcome)) :
    ∃ rest x', (∀ a ∈ rest, a.isOutside = false) ∧ x.follow rest = some x' ∧
      x'.engine.outcome? = some outcome := by
  have hsent : history.filter Action.isOutside <+: Action.due false ws :=
    hall ▸ List.prefix_rfl
  rcases (Exchange.tracks_start e₀.like_begin.symm).follow (by rintro ⟨⟩) hfollow hsent with
    ⟨fed, coming, ⟨hopen, e₁, inlet, hclosed, hstands, htracks⟩, rfl, hlast, hdue⟩
  rw [hall] at hdue
  have hdone : x.port.inbound.closed = true :=
    Action.closed_of_due (List.append_right_eq_self.mp hdue.symm)
  cases hlast hdone
  rw [supplied_eq_alone] at hrun
  have hruns := (htracks [] fun _ => rfl).runOn_eq hstart
  cases hstopped : e₁.outcome? with
  | some outcome' =>
      rcases hruns.2 outcome' hstopped with ⟨fuel', hrun'⟩
      have hsame := runOn_add hrun' fuel
      rw [Nat.add_comm, runOn_add hrun fuel'] at hsame
      cases hsame
      exact ⟨[], x, by simp, rfl, hstands.outcome?_eq.trans hstopped⟩
  | none =>
      have hgoing := going_of_outcome? hstopped
      rcases hruns.1 hgoing with ⟨k, hk⟩
      have hlater := (hk fuel).symm.trans (runOn_add hrun k)
      rw [List.append_nil] at hlater
      exact hstands.finish hopen hclosed hdone hgoing hlater

theorem endsAsEarly_of_led {acts : List Action} {s : Session Link}
    (hstart : e₀.status.stop? = none) (hled : Session.Led e₀ acts s)
    (hsent : acts <+: Action.due false ws) :
    e₀.EndsAsEarly ws s.engine s.outside.outbound.buffer := by
  rcases Session.keeps_of_led hled e₀.like_begin.symm hsent with
    ⟨fed, coming, closed, ⟨asked, -, -, hclosed, e, htracks, hholds⟩, rfl, hlast, -⟩
  cases hholds with
  | between like =>
      exact endsAsEarly_of_tracks htracks hstart (fun h => hlast (hclosed.symm.trans h)) like
  | asks demand like =>
      intro outcome hstopped
      rw [like.outcome?_eq, (going_of_demand_eq_input demand).2] at hstopped
      cases hstopped

/-- Late input is as good as early input. Let the values `ws` be sent to an engine and the channel closed
behind them, in any interleaving with what the engine does, by a run or by steps: it may be between two
steps, wait for input, or have been given some and not gone on yet; and it may stop before all has been
sent. If it has stopped, the run of an engine that finds all of `ws` in a closed channel stops as well,
with the same outcome, status, count of steps, registers and memory, and with the same values emitted.
If that run stops and all has been sent, the engine can go on by itself until it has stopped with that
outcome. A session with one call at a time, too, stops as that run does. -/
theorem late_eq_early (name : String) (trace : Bool) (image : Image) (ws : List Int) :
    let e₀ := Engine.load name image trace
    (∀ history x, (Exchange.start e₀).follow history = some x →
      history.filter Action.isOutside <+: ws.map .send ++ [.close] →
      e₀.EndsAsEarly ws x.engine x.port.outbound.buffer ∧
      (history.filter Action.isOutside = ws.map .send ++ [.close] → ∀ fuel e l outcome,
        e₀.run Link.device fuel (Link.supplied ws) = some (e, l, .answered outcome) →
        ∃ rest x', (∀ a ∈ rest, a.isOutside = false) ∧ x.follow rest = some x' ∧
          x'.engine.outcome? = some outcome)) ∧
    ∀ acts s, Session.Led e₀ acts s → acts <+: ws.map .send ++ [.close] →
      e₀.EndsAsEarly ws s.engine s.outside.outbound.buffer := by
  intro e₀
  refine ⟨?_, ?_⟩
  · intro history x hfollow hsent
    refine ⟨endsAsEarly_of_follow rfl hfollow hsent, ?_⟩
    intro hall fuel e l outcome hrun
    exact finishes_of_follow rfl hfollow hall hrun
  · intro acts s hled hsent
    exact endsAsEarly_of_led rfl hled hsent

/-- A program that hands its input on. It waits for the first value, finds the second one when it comes
to it, and is told of the end while it waits for a third. A session that is woken after each value comes
to the same. -/
theorem late_eq_early_echo :
    ∃ x s,
      (Exchange.start (Engine.load "engine" (Image.ofIntegers [3, 7, 4, 7, 1105, 1, 0]))).follow
        [.begin, .step, .send 5, .send 6, .goOn, .step, .step, .step, .goOn, .step, .step, .step,
          .close, .goOn] = some x ∧
      Session.Led (Engine.load "engine" (Image.ofIntegers [3, 7, 4, 7, 1105, 1, 0]))
        [.send 5, .send 6, .close] s ∧
      x.engine.outcome? = some (.ok ⟨.endOfStream, 6⟩) ∧
      s.engine.outcome? = some (.ok ⟨.endOfStream, 6⟩) ∧
      (Engine.load "engine" (Image.ofIntegers [3, 7, 4, 7, 1105, 1, 0])).EndsAsEarly [5, 6]
        x.engine x.port.outbound.buffer ∧
      (Engine.load "engine" (Image.ofIntegers [3, 7, 4, 7, 1105, 1, 0])).EndsAsEarly [5, 6]
        s.engine s.outside.outbound.buffer ∧
      x.port.outbound.buffer = [5, 6] ∧ s.outside.outbound.buffer = [5, 6] := by
  have hfollow : (Exchange.start
      (Engine.load "engine" (Image.ofIntegers [3, 7, 4, 7, 1105, 1, 0]))).follow
      [.begin, .step, .send 5, .send 6, .goOn, .step, .step, .step, .goOn, .step, .step, .step,
        .close, .goOn] = some _ := rfl
  have hstart : Session.Led (Engine.load "engine" (Image.ofIntegers [3, 7, 4, 7, 1105, 1, 0])) []
      _ := .start
  have hcalled := hstart.call rfl 0 .run rfl
  have hfirst := (hcalled.send 5).wake 9 rfl
  have hsecond := (hfirst.send 6).wake 9 rfl
  have hended := hsecond.close.wake 9 rfl
  have hlate := late_eq_early "engine" false (Image.ofIntegers [3, 7, 4, 7, 1105, 1, 0]) [5, 6]
  exact ⟨_, _, hfollow, hended, rfl, rfl, (hlate.1 _ _ hfollow (by decide)).1,
    hlate.2 _ _ hended (by decide), rfl, rfl⟩

end WordMachine.Engine
