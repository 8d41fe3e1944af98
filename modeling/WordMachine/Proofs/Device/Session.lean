import WordMachine.Proofs.Device.Exchange
import WordMachine.Session

/-!
# Late input to sessions

A call of a session does not wait inside the channel: when it is woken it asks again. So the values
sent to it lie in the channel until then, and the engine alone (`Session.Tracks`) has exactly the same
to receive. As long as there is one call at a time, a session comes through the states of the engine
alone.
-/

namespace WordMachine

/-- The input instruction that a call waits at, if it does. -/
def Turn.pending? {α : Type} : Turn α → Option Pending
  | answered _ => none
  | waiting pending => some pending

/-- A run waits exactly where its last step does. -/
theorem Turn.pending?_of_closing {steps : Nat} {turn : Turn (Option Ending)} {result : Turn RunResult}
    (h : turn.closing? steps = some result) : result.pending? = turn.pending? := by
  rcases turn with (why | (_ | ending)) | pending <;> cases h <;> rfl

namespace Link

def feed (l : Link) (v : Int) : Link :=
  { l with inbound := l.inbound.sendAll [v] }

def shut (l : Link) : Link :=
  { l with inbound := l.inbound.close.1 }

theorem feed_eq {l : Link} (h : l.inbound.closed = false) (v : Int) :
    l.feed v = { l with inbound := l.inbound.accept { value? := some v } } := by
  simp [feed, Channel.sendAll_of_open h, Channel.accept, h]

theorem shut_eq (l : Link) : l.shut = { l with inbound := l.inbound.accept { final := true } } := by
  rw [shut, Channel.accept_final]

end Link

namespace Session

variable {e e₀ engine engine' : Engine} {fed ws : List Int} {l : Link} {asked : Option Pending}
  {closed : Bool} {fuel : Nat}

/-- An engine stands where the engine alone does, or it has asked for the input of the next step. -/
inductive Holds (e engine : Engine) : Option Pending → Prop where
  | between (like : e.Like engine) : Holds e engine none
  | asks {e₁ : Engine} {pending : Pending} (demand : e.demand = .input e₁ pending)
      (like : e₁.Like engine) : Holds e engine (some pending)

/-- An engine alone that starts as `e₀`, on what has been sent and whatever may still be sent, comes to
where the engine on the link stands, with the same values emitted. -/
structure Tracks (e₀ : Engine) (fed : List Int) (closed : Bool) (engine : Engine) (l : Link)
    (asked : Option Pending) : Prop where
  opened : l.outbound.closed = false
  closed_eq : l.inbound.closed = closed
  alone : ∃ e, Engine.Tracks e₀ fed l.inbound e l.outbound.buffer ∧ Holds e engine asked

/-! ## Steps -/

/-- What is like a step of the engine alone brings the engine to where that step leads. -/
theorem tracks_of_step {turn : Turn (Option Ending)} (hopen : l.outbound.closed = false)
    (hclosed : l.inbound.closed = closed) (h : Engine.Tracks e₀ fed l.inbound e l.outbound.buffer)
    (hlike : (e.step Link.device l).1.Like engine) (hturn : (e.step Link.device l).2.2 = turn) :
    Tracks e₀ fed closed engine (e.step Link.device l).2.1 turn.pending? := by
  rcases e.stopped_or_awaits_or_passes l.inbound l.outbound with
    hstopped | hawaits | ⟨e', inlet', δ, hpasses⟩
  · rcases Option.isSome_iff_exists.mp hstopped with ⟨how, hstop⟩
    rw [Engine.step_of_stopped hstop] at hlike hturn ⊢
    subst hturn
    exact ⟨hopen, hclosed, e, h, .between hlike⟩
  · rcases hawaits.step_eq l.outbound with ⟨dest, hstep⟩
    have hdemand := Engine.demand_of_waiting (congrArg (fun r => r.2.2) hstep)
    rw [hstep] at hlike hturn hdemand ⊢
    subst hturn
    exact ⟨hopen, hclosed, e, h, .asks hdemand hlike⟩
  · rcases hpasses.step_eq with ⟨answer, hstep⟩
    rw [hstep] at hlike hturn ⊢
    subst hturn
    rw [Channel.accept_unclosed hopen]
    exact ⟨hopen, hpasses.inlet_eq.1.trans hclosed, e', h.of_passes hopen hpasses, .between hlike⟩

theorem Tracks.begin (h : Tracks e₀ fed closed engine l none) :
    Tracks e₀ fed closed engine.begin l none := by
  rcases h with ⟨hopen, hclosed, e, htracks, hholds⟩
  cases hholds with
  | between like => exact ⟨hopen, hclosed, e, htracks, .between (like.trans engine.like_begin)⟩

/-- A step of the session is a step of the engine alone, or it asks for input that the engine alone
has not got yet. -/
theorem Tracks.step (h : Tracks e₀ fed closed engine l none) :
    Tracks e₀ fed closed (engine.step Link.device l).1 (engine.step Link.device l).2.1
      (engine.step Link.device l).2.2.pending? := by
  rcases h with ⟨hopen, hclosed, e, htracks, hholds⟩
  cases hholds with
  | between like =>
      rcases like.step Link.device l with ⟨hlike, hsame⟩
      rw [hsame]
      exact tracks_of_step hopen hclosed htracks hlike rfl

/-- A call that was left waiting goes on with what the link now replies: that is the whole step of the
engine alone. -/
theorem Tracks.resume {pending : Pending} (h : Tracks e₀ fed closed engine l (some pending)) :
    Tracks e₀ fed closed (engine.resume pending (Link.device.request l).1).1
      (Link.device.request l).2 (engine.resume pending (Link.device.request l).1).2.pending? := by
  rcases h with ⟨hopen, hclosed, e, htracks, hholds⟩
  cases hholds with
  | asks demand like =>
      rcases like.resume pending (Link.device.request l).1 with ⟨hlike, hsame⟩
      have hstep : e.step Link.device l = _ := Engine.step_eq_meet Link.device e l
      rw [demand] at hstep
      have hnext : Tracks e₀ fed closed (engine.resume pending (Link.device.request l).1).1 _ _ :=
        tracks_of_step hopen hclosed htracks (by rw [hstep]; exact hlike) rfl
      rw [hstep] at hnext
      rw [hsame]
      exact hnext

/-- A run is a number of steps, and none of them leaves the track. -/
theorem Tracks.runOn {engine engine' : Engine} {l l' : Link} {fuel : Nat}
    {turn : Turn (Option Ending)} {result : Turn RunResult}
    (h : Tracks e₀ fed closed engine l turn.pending?)
    (hrun : Engine.runOn Link.device fuel (engine, l, turn) = some (engine', l', result)) :
    Tracks e₀ fed closed engine' l' result.pending? := by
  cases hclosing : turn.closing? engine.steps with
  | some last =>
      rw [Engine.runOn_of_closing hclosing] at hrun
      cases hrun
      rw [Turn.pending?_of_closing hclosing]
      exact h
  | none =>
      cases Engine.eq_of_closing_eq_none hclosing
      cases fuel with
      | zero => cases hrun
      | succ fuel => exact h.step.runOn hrun

theorem Tracks.run {result : Turn RunResult} {l' : Link} (h : Tracks e₀ fed closed engine l none)
    (hrun : engine.run Link.device fuel l = some (engine', l', result)) :
    Tracks e₀ fed closed engine' l' result.pending? :=
  h.begin.step.runOn hrun

/-- What is sent meanwhile is there for the engine alone as well. -/
theorem Tracks.feed (h : Tracks e₀ fed false engine l asked) (v : Int) :
    Tracks e₀ (fed ++ [v]) false engine (l.feed v) asked := by
  rcases h with ⟨hopen, hclosed, e, htracks, hholds⟩
  rw [Link.feed_eq hclosed]
  refine ⟨hopen, ?_, e, ?_, hholds⟩
  · rw [Channel.closed_accept, hclosed]
    rfl
  · refine htracks.accept (δ := { value? := some v }) fun h => ?_
    rw [hclosed] at h
    cases h

theorem Tracks.shut (h : Tracks e₀ fed closed engine l asked) :
    Tracks e₀ fed true engine l.shut asked := by
  rcases h with ⟨hopen, hclosed, e, htracks, hholds⟩
  have haccept := htracks.accept (δ := { final := true }) fun _ => rfl
  rw [Link.shut_eq]
  refine ⟨hopen, ?_, e, ?_, hholds⟩
  · rw [Channel.closed_accept]
    exact Bool.or_true _
  · simpa using haccept

/-! ## Calls -/

variable {s s' : Session Link} {request : Request} {answer? : Option Answer} {acts : List Action}

/-- A session with one call at a time keeps up with the engine alone. -/
def Keeps (e₀ : Engine) (fed : List Int) (closed : Bool) (s : Session Link) : Prop :=
  ∃ asked : Option Pending, s.outstanding.map Call.pending = asked.toList ∧
    Tracks e₀ fed closed s.engine s.outside asked

theorem keeps_enter {α : Type} {r : Engine × Link × Turn α} {answer : Except Fault α → Answer}
    {nextTicket ticket : Nat} (h : Tracks e₀ fed closed r.1 r.2.1 r.2.2.pending?)
    (henter : enter [] nextTicket ticket request answer r = (s', answer?)) :
    Keeps e₀ fed closed s' := by
  rcases r with ⟨engine, l, result | pending⟩
  · cases henter
    exact ⟨none, rfl, h⟩
  · cases henter
    exact ⟨some pending, rfl, h⟩

/-- Making a call keeps the invariant. No other one may be outstanding. -/
theorem Keeps.call (h : Keeps e₀ fed closed s) (hfree : s.outstanding = [])
    (hcall : s.call Link.device fuel request = some (s', answer?)) : Keeps e₀ fed closed s' := by
  rcases s with ⟨engine, l, outstanding, ticket⟩
  cases hfree
  rcases h with ⟨asked, hasked, htracks⟩
  cases asked with
  | some pending => cases hasked
  | none =>
      cases request with
      | step => exact keeps_enter htracks.step (Option.some.inj hcall)
      | run =>
          rcases Option.map_eq_some_iff.mp hcall with ⟨⟨engine', l', result⟩, hrun, henter⟩
          have htracks' : Tracks e₀ fed closed engine' l' result.pending? := htracks.run hrun
          exact keeps_enter htracks' henter

theorem keeps_goOn {c : Call} {nextTicket : Nat} (h : Tracks e₀ fed closed engine l (some c.pending))
    (hgoOn : goOn Link.device fuel engine (Link.device.request l).2 [] nextTicket c
      (Link.device.request l).1 = some (s', answer?)) : Keeps e₀ fed closed s' := by
  cases hrequest : c.request with
  | step =>
      simp only [goOn, hrequest] at hgoOn
      exact keeps_enter h.resume (Option.some.inj hgoOn)
  | run =>
      simp only [goOn, hrequest] at hgoOn
      rcases Option.map_eq_some_iff.mp hgoOn with ⟨⟨engine', l', result⟩, hrun, henter⟩
      have htracks : Tracks e₀ fed closed engine' l' result.pending? := h.resume.runOn hrun
      exact keeps_enter htracks henter

/-- A session that is woken lets the first call go on, if there is a reply for it. -/
theorem wake_cases {c : Call} {outstanding : List Call} {ticket : Nat}
    {answers : List (Nat × Answer)}
    (h : wake Link.device fuel ⟨engine, l, c :: outstanding, ticket⟩ = some (s', answers)) :
    (Link.device.request l).1 = .wait ∧
        s' = ⟨engine, (Link.device.request l).2, c :: outstanding, ticket⟩ ∨
      ∃ less s₁ answer? later, fuel = less + 1 ∧
        goOn Link.device less engine (Link.device.request l).2 outstanding ticket c
          (Link.device.request l).1 = some (s₁, answer?) ∧
        wake Link.device less s₁ = some (s', later) := by
  unfold wake at h
  split at h
  · rename_i l' hrequest
    cases h
    rw [hrequest]
    exact .inl ⟨rfl, rfl⟩
  · rename_i reply l' hrequest
    rw [hrequest]
    cases fuel with
    | zero => cases h
    | succ less =>
        simp only at h
        split at h
        · cases h
        · rename_i s₁ answer? hgoOn
          split at h
          · cases h
          · rename_i s₂ later hwake
            cases h
            exact .inr ⟨less, s₁, answer?, later, rfl, hgoOn, hwake⟩

/-- Whatever lets a call go on leads the session where the engine alone comes. -/
theorem Keeps.wake {answers : List (Nat × Answer)} (h : Keeps e₀ fed closed s)
    (hwake : s.wake Link.device fuel = some (s', answers)) : Keeps e₀ fed closed s' := by
  induction fuel using Nat.strongRecOn generalizing s answers with
  | ind fuel ih =>
      rcases s with ⟨engine, l, outstanding, ticket⟩
      rcases h with ⟨asked, hasked, htracks⟩
      cases outstanding with
      | nil =>
          simp only [Session.wake] at hwake
          cases hwake
          exact ⟨asked, hasked, htracks⟩
      | cons c outstanding =>
          cases asked with
          | none => cases hasked
          | some pending =>
              rcases List.cons.inj hasked with ⟨rfl, hothers⟩
              cases List.map_eq_nil_iff.mp hothers
              rcases wake_cases hwake with ⟨hwait, rfl⟩ | ⟨less, s₁, answer?, later, rfl, hgoOn, hlater⟩
              · have hresume := htracks.resume
                rw [hwait] at hresume
                exact ⟨some c.pending, rfl, hresume⟩
              · exact ih less (Nat.lt_succ_self less) (keeps_goOn htracks hgoOn) hlater

/-! ## Histories -/

/-- The sessions that an engine on a link is led through from outside, with what others have done to the
channel before it. A call is made only when none is outstanding. -/
inductive Led (e₀ : Engine) : List Action → Session Link → Prop where
  | start : Led e₀ []
      { engine := e₀, outside := { inbound := { name := "channel" }, outbound := { name := "channel" } } }
  | call {acts : List Action} {s s' : Session Link} {answer? : Option Answer}
      (before : Led e₀ acts s) (free : s.outstanding = []) (fuel : Nat) (request : Request)
      (made : s.call Link.device fuel request = some (s', answer?)) : Led e₀ acts s'
  | wake {acts : List Action} {s s' : Session Link} {answers : List (Nat × Answer)}
      (before : Led e₀ acts s) (fuel : Nat)
      (made : s.wake Link.device fuel = some (s', answers)) : Led e₀ acts s'
  | send {acts : List Action} {s : Session Link} (before : Led e₀ acts s) (v : Int) :
      Led e₀ (acts ++ [.send v]) (s.change (Link.feed · v))
  | close {acts : List Action} {s : Session Link} (before : Led e₀ acts s) :
      Led e₀ (acts ++ [.close]) (s.change Link.shut)

/-- However calls and the others' actions are interleaved, the engine alone keeps up, on what has been
sent by then. -/
theorem keeps_of_led (h : Led e acts s) (hlike : e₀.Like e) (hdue : acts <+: Action.due false ws) :
    ∃ fed coming closed, Keeps e₀ fed closed s ∧ fed ++ coming = ws ∧
      (closed = true → coming = []) ∧ Action.due false ws = acts ++ Action.due closed coming := by
  induction h with
  | start =>
      refine ⟨[], ws, false, ⟨none, rfl, rfl, rfl, e₀, Engine.tracks_start rfl, .between hlike⟩, rfl,
        ?_, rfl⟩
      rintro ⟨⟩
  | call before free fuel request made ih =>
      rcases ih hdue with ⟨fed, coming, closed, hkeeps, hrest⟩
      exact ⟨fed, coming, closed, hkeeps.call free made, hrest⟩
  | wake before fuel made ih =>
      rcases ih hdue with ⟨fed, coming, closed, hkeeps, hrest⟩
      exact ⟨fed, coming, closed, hkeeps.wake made, hrest⟩
  | @send acts s before v ih =>
      rcases ih ((List.prefix_append acts _).trans hdue) with
        ⟨fed, coming, closed, ⟨asked, hasked, htracks⟩, rfl, -, hleft⟩
      rw [hleft, List.prefix_append_right_inj] at hdue
      rcases Action.of_prefix_due hdue with
        ⟨rfl, ⟨w, rest, hw, rfl, -⟩ | ⟨hclose, -, -⟩⟩
      · cases hw
        refine ⟨fed ++ [v], rest, false, ⟨asked, hasked, htracks.feed v⟩, ?_, ?_, ?_⟩
        · rw [List.append_assoc]
          rfl
        · rintro ⟨⟩
        · rw [hleft, List.append_assoc]
          rfl
      · cases hclose
  | @close acts s before ih =>
      rcases ih ((List.prefix_append acts _).trans hdue) with
        ⟨fed, coming, closed, ⟨asked, hasked, htracks⟩, rfl, -, hleft⟩
      rw [hleft, List.prefix_append_right_inj] at hdue
      rcases Action.of_prefix_due hdue with ⟨rfl, ⟨w, rest, hw, -, -⟩ | ⟨-, rfl, -⟩⟩
      · cases hw
      · refine ⟨fed, [], true, ⟨asked, hasked, htracks.shut⟩, rfl, fun _ => rfl, ?_⟩
        rw [hleft, List.append_assoc]
        rfl

end Session

end WordMachine
