import WordMachine.Proofs.Channel.Mailbox
import WordMachine.Proofs.Device.Bindings
import WordMachine.Proofs.Engine.Like
import WordMachine.Proofs.Network.Alone

/-!
# Engines and whoever sends to them

An engine that receives from a channel may find a value there, may be handed one while it waits, and
may be told that the stream has ended in either way. In all cases there is some time between the answer
and the engine's going on, and in that time more can be sent.

`Exchange` puts an engine, its two channels and whoever sends to it side by side and lets them act one
at a time, as finely as they can. `Exchange.Tracks` compares it with the engine alone behind a channel
that holds everything from the beginning: whatever happens in which order, the two are at most one
exchange apart. Once the channel is closed the engine can come to the end that it would come to alone
(`Exchange.Stands.finish`).
-/

namespace WordMachine

/-- An engine that wants input has not stopped. -/
theorem Engine.going_of_demand_eq_input {e e₁ : Engine} {pending : Pending}
    (h : e.demand = .input e₁ pending) : e.outcome? = none ∧ e₁.outcome? = none := by
  rcases eq_of_demand_eq_input h with ⟨dest, hgoing, -, rfl, -⟩
  refine ⟨outcome?_of_going hgoing, outcome?_of_going ?_⟩
  rw [status_executing]
  rfl

/-! ## Ports -/

/-- The mailbox of an engine, which is the one receiver in it, and the channel behind the engine. -/
structure Port extends Mailbox where
  outbound : Channel Empty

namespace Port

/-- Receives. The engine goes on later, also if there is something to be received already. -/
def request (p : Port) : Reply × Port :=
  (.wait, { p with toMailbox := p.toMailbox.receive })

def emit (value : Int) (p : Port) : Except Fault Unit × Port :=
  match p.outbound.send value with
  | .ok (outbound, _) => (.ok (), { p with outbound })
  | .error why => (.error why, p)

def device : Device Port :=
  { request, emit }

def send (p : Port) (value : Int) : Port :=
  { p with toMailbox := p.toMailbox.send value }

def close (p : Port) : Port :=
  { p with toMailbox := p.toMailbox.close }

end Port

/-! ## Exchanges -/

/-- What can happen next between an engine and whoever sends to it. -/
inductive Action where
  | send (value : Int)
  | close
  -- A run is called for.
  | begin
  -- A step is made, as a call of its own or in a run.
  | step
  -- The step that waits for input goes on with what it was given.
  | goOn
  deriving DecidableEq, Repr

namespace Action

def isOutside : Action → Bool
  | send _ | close => true
  | begin | step | goOn => false

/-- What others have still to do to a channel if the given values are to come: nothing once it is
closed. -/
def due (closed : Bool) (coming : List Int) : List Action :=
  if closed then [] else coming.map send ++ [Action.close]

theorem closed_of_due {closed : Bool} {coming : List Int} (h : due closed coming = []) :
    closed = true := by
  cases closed with
  | true => rfl
  | false => simp [due] at h

/-- What is done next to a channel that is not closed: the next value is sent, or there is none and the
channel is closed. -/
theorem of_prefix_due {a : Action} {later : List Action} {closed : Bool} {coming : List Int}
    (h : a :: later <+: due closed coming) :
    closed = false ∧
      ((∃ v rest, a = send v ∧ coming = v :: rest ∧ later <+: due false rest) ∨
        a = Action.close ∧ coming = [] ∧ later = []) := by
  cases closed with
  | true => cases List.prefix_nil.mp h
  | false =>
      refine ⟨rfl, ?_⟩
      cases coming with
      | nil =>
          rcases List.cons_prefix_cons.mp h with ⟨rfl, hlater⟩
          exact .inr ⟨rfl, rfl, List.prefix_nil.mp hlater⟩
      | cons v rest =>
          rcases List.cons_prefix_cons.mp h with ⟨rfl, hlater⟩
          exact .inl ⟨v, rest, rfl, rfl, hlater⟩

end Action

/-- An engine at its port, with the step that waits for input if one does. -/
structure Exchange where
  engine : Engine
  port : Port
  pending? : Option Pending := none

namespace Exchange

def start (engine : Engine) : Exchange :=
  { engine, port := { inbound := { name := "channel" }, outbound := { name := "channel" } } }

def enter (engine : Engine) (port : Port) : Turn (Option Ending) → Exchange
  | .answered _ => { engine, port }
  | .waiting pending => { engine, port, pending? := some pending }

/-- The exchange after an action, if the action is possible. One call is outstanding at most, so no step
is made while another one waits. -/
def act (x : Exchange) : Action → Option Exchange
  | .send value => some { x with port := x.port.send value }
  | .close => some { x with port := x.port.close }
  | .begin =>
    match x.pending? with
    | some _ => none
    | none => some { x with engine := x.engine.begin }
  | .step =>
    match x.pending? with
    | some _ => none
    | none =>
      let (engine, port, turn) := x.engine.step Port.device x.port
      some (enter engine port turn)
  | .goOn =>
    match x.pending?, x.port.letter? with
    | some pending, some letter =>
      let (engine, turn) := x.engine.resume pending (.ofLetter letter)
      some (enter engine { x.port with toMailbox := x.port.taken } turn)
    | _, _ => none

def follow (x : Exchange) (history : List Action) : Option Exchange :=
  history.foldlM act x

/-! ## The engine alone -/

variable {x x' : Exchange} {e e₀ : Engine} {inlet : Channel Empty} {fed : List Int}
  {history : List Action}

/-- How an exchange stands to an engine alone, of which `inlet` shows what it has still to receive. The
engine of the exchange may be ahead by the request of an input instruction: what it has been given but
has not gone on with is still to be received by the other one. -/
inductive Stands (e : Engine) (inlet : Channel Empty) (x : Exchange) : Prop where
  | between (like : e.Like x.engine) (free : x.pending? = none)
      (holds : x.port.toMailbox.Holds inlet false)
  | asks {e₁ : Engine} {pending : Pending} (demand : e.demand = .input e₁ pending)
      (like : e₁.Like x.engine) (asked : x.pending? = some pending)
      (holds : x.port.toMailbox.Holds inlet true)

/-- An engine alone that starts as `e₀`, on what has been sent and whatever may still be sent, comes to
where the exchange stands, with the same values emitted. -/
structure Tracks (e₀ : Engine) (fed : List Int) (x : Exchange) : Prop where
  opened : x.port.outbound.closed = false
  alone : ∃ e inlet, inlet.closed = x.port.inbound.closed ∧ Stands e inlet x ∧
    Engine.Tracks e₀ fed inlet e x.port.outbound.buffer

theorem tracks_start (h : e₀.Like e) : Tracks e₀ [] (start e) where
  opened := rfl
  alone := ⟨e₀, { name := "channel" }, rfl, .between h rfl (.free rfl rfl), Engine.tracks_start rfl⟩

/-! ## What others do -/

theorem Stands.send (h : Stands e inlet x) (hopen : x.port.inbound.closed = false)
    (hclosed : inlet.closed = x.port.inbound.closed) (v : Int) :
    Stands e (inlet.accept { value? := some v }) { x with port := x.port.send v } := by
  cases h with
  | between like free holds => exact .between like free (holds.send hopen hclosed v)
  | asks demand like asked holds => exact .asks demand like asked (holds.send hopen hclosed v)

theorem Stands.close (h : Stands e inlet x) :
    Stands e (inlet.accept { final := true }) { x with port := x.port.close } := by
  cases h with
  | between like free holds => exact .between like free holds.close
  | asks demand like asked holds => exact .asks demand like asked holds.close

/-- Between two steps the exchange stands exactly where the engine alone does. -/
theorem Stands.of_free (h : Stands e inlet x) (hfree : x.pending? = none) :
    e.Like x.engine ∧ x.port.toMailbox.Holds inlet false := by
  cases h with
  | between like free holds => exact ⟨like, holds⟩
  | asks demand like asked => cases asked.symm.trans hfree

theorem Stands.begin (h : Stands e inlet x) (hfree : x.pending? = none) :
    Stands e inlet { x with engine := x.engine.begin } := by
  rcases h.of_free hfree with ⟨hlike, hholds⟩
  exact .between (hlike.trans x.engine.like_begin) hfree hholds

theorem Tracks.send (h : Tracks e₀ fed x) (hopen : x.port.inbound.closed = false) (v : Int) :
    Tracks e₀ (fed ++ [v]) { x with port := x.port.send v } := by
  rcases h with ⟨hopened, e, inlet, hclosed, hstands, htracks⟩
  refine ⟨?_, e, inlet.accept { value? := some v }, ?_, hstands.send hopen hclosed v, ?_⟩
  · exact hopened
  · rw [Channel.closed_accept, Port.send, Mailbox.closed_send, hclosed]
    exact Bool.or_false _
  · refine htracks.accept (δ := { value? := some v }) fun h => ?_
    rw [hclosed, hopen] at h
    cases h

theorem Tracks.close (h : Tracks e₀ fed x) : Tracks e₀ fed { x with port := x.port.close } := by
  rcases h with ⟨hopened, e, inlet, hclosed, hstands, htracks⟩
  refine ⟨hopened, e, inlet.accept { final := true }, ?_, hstands.close, ?_⟩
  · rw [Channel.closed_accept, Port.close, Mailbox.closed_close]
    exact Bool.or_true _
  · have haccept := htracks.accept (δ := { final := true }) fun _ => rfl
    rw [Option.toList_none, List.append_nil] at haccept
    exact haccept

/-! ## What the engine does -/

/-- The engine alone makes a move, and the exchange stands where that brings it, between two steps. -/
def Moves (e : Engine) (inlet : Channel Empty) (x x' : Exchange) : Prop :=
  ∃ e' inlet' δ, e.Passes inlet x.port.outbound e' inlet' δ ∧ Stands e' inlet' x' ∧
    x'.pending? = none ∧ x'.port.outbound = x.port.outbound.accept { δ with final := false }

/-- The engine of the exchange asks for input or has stopped; the engine alone stays where it is. -/
structure Asks (e : Engine) (inlet : Channel Empty) (x x' : Exchange) : Prop where
  stands : Stands e inlet x'
  outbound_eq : x'.port.outbound = x.port.outbound
  asked : e.status.stop? = none → x'.pending?.isSome = true

theorem Asks.tracks (h : Asks e inlet x x') (hopen : x.port.outbound.closed = false)
    (hclosed : inlet.closed = x'.port.inbound.closed)
    (htracks : Engine.Tracks e₀ fed inlet e x.port.outbound.buffer) : Tracks e₀ fed x' := by
  rcases h with ⟨hstands, houtbound, -⟩
  refine ⟨?_, e, inlet, hclosed, hstands, ?_⟩
  · rw [houtbound, hopen]
  · rw [houtbound]
    exact htracks

theorem Moves.tracks (h : Moves e inlet x x') (hopen : x.port.outbound.closed = false)
    (hclosed : inlet.closed = x'.port.inbound.closed)
    (htracks : Engine.Tracks e₀ fed inlet e x.port.outbound.buffer) : Tracks e₀ fed x' := by
  rcases h with ⟨e', inlet', δ, hpasses, hstands, -, houtbound⟩
  rw [Channel.accept_unclosed hopen] at houtbound
  refine ⟨?_, e', inlet', ?_, hstands, ?_⟩
  · rw [houtbound, hopen]
  · rw [hpasses.inlet_eq.1, hclosed]
  · rw [houtbound]
    exact htracks.of_passes hopen hpasses

/-- The next step of an engine that is not in the middle of one. -/
theorem Stands.step (h : Stands e inlet x) (hopen : x.port.outbound.closed = false)
    (hfree : x.pending? = none) :
    ∃ x', x.act .step = some x' ∧ x'.port.inbound.closed = x.port.inbound.closed ∧
      (Asks e inlet x x' ∨ Moves e inlet x x') := by
  rcases h.of_free hfree with ⟨hlike, hholds⟩
  simp only [act, hfree]
  refine ⟨_, rfl, ?_⟩
  cases hstop : e.status.stop? with
  | some how =>
      have hstop' : x.engine.status.stop? = some how := by rw [hlike.status_eq, hstop]
      rw [Engine.step_of_stopped hstop']
      refine ⟨rfl, .inl ⟨.between hlike rfl hholds, rfl, ?_⟩⟩
      intro hgoing
      cases hstop.symm.trans hgoing
  | none =>
      have hwants := hlike.demand
      rw [Engine.step_eq_meet]
      generalize x.engine.demand = wanted at hwants ⊢
      cases hdemand : e.demand with
      | nothing e₁ answer =>
          rw [hdemand] at hwants
          cases hwants with
          | nothing like =>
              have hpasses : e.Passes inlet x.port.outbound e₁ inlet _ := .alone hstop hdemand
              exact ⟨rfl, .inr ⟨e₁, inlet, _, hpasses, .between like rfl hholds, rfl,
                (Channel.accept_nothing _).symm⟩⟩
      | output e₁ w =>
          rw [hdemand] at hwants
          cases hwants with
          | output like =>
              have hpasses : e.Passes inlet x.port.outbound (e₁.settle (.ok ())).1 inlet _ :=
                .send hstop hdemand hopen
              have hemit : Port.device.emit w.toInt x.port =
                  (.ok (), { x.port with
                    outbound := x.port.outbound.accept { value? := some w.toInt } }) := by
                simp only [Port.device, Port.emit, Channel.send_of_open hopen, Channel.accept, hopen]
                rfl
              simp only [Demand.meet, hemit]
              exact ⟨rfl, .inr ⟨_, inlet, _, hpasses,
                .between (like.settle (.ok ())).1 rfl hholds, rfl, rfl⟩⟩
      | input e₁ pending =>
          rw [hdemand] at hwants
          cases hwants with
          | input like =>
              exact ⟨Mailbox.closed_receive _,
                .inl ⟨.asks hdemand like rfl hholds.receive, rfl, fun _ => rfl⟩⟩

/-- The step that waits goes on with what it was given: the engine alone makes the whole step. -/
theorem Stands.goOn {pending : Pending} {letter : Except Fault Int} (h : Stands e inlet x)
    (hclosed : inlet.closed = x.port.inbound.closed) (hasked : x.pending? = some pending)
    (hletter : x.port.letter? = some letter) :
    ∃ x', x.act .goOn = some x' ∧ x'.port.inbound.closed = x.port.inbound.closed ∧
      Moves e inlet x x' := by
  simp only [act, hasked, hletter]
  refine ⟨_, rfl, ?_⟩
  cases h with
  | between like free => cases free.symm.trans hasked
  | @asks e₁ pending' demand like asked holds =>
      cases asked.symm.trans hasked
      have hgoing := (Engine.eq_of_demand_eq_input demand).choose_spec.1
      rcases holds.take hclosed hletter with ⟨v, rest, rfl, hpoll, hrest⟩ | ⟨source, rfl, hpoll, hsame⟩
      · have hpasses : e.Passes inlet x.port.outbound (e₁.resume pending (.value v)).1 _ _ :=
          .receive hgoing demand hpoll
        exact ⟨rfl, _, _, _, hpasses, .between (like.resume pending (.value v)).1 rfl hrest, rfl,
          (Channel.accept_nothing _).symm⟩
      · have hpasses : e.Passes inlet x.port.outbound (e₁.finish .endOfStream) inlet _ :=
          .ended hgoing demand hpoll
        exact ⟨rfl, _, inlet, _, hpasses, .between (like.finish .endOfStream) rfl hsame, rfl,
          (Channel.accept_nothing _).symm⟩

/-! ## Histories -/

theorem exists_act_of_follow_cons {a : Action} (h : x.follow (a :: history) = some x') :
    ∃ y, x.act a = some y ∧ y.follow history = some x' := by
  simp only [follow, List.foldlM_cons] at h
  exact Option.bind_eq_some_iff.mp h

/-- The engine's own actions close nothing and are followed by the engine alone. -/
theorem Tracks.act_own {a : Action} (h : Tracks e₀ fed x) (hown : a.isOutside = false)
    (hact : x.act a = some x') :
    x'.port.inbound.closed = x.port.inbound.closed ∧ Tracks e₀ fed x' := by
  rcases h with ⟨hopen, e, inlet, hclosed, hstands, htracks⟩
  cases a with
  | send v => cases hown
  | close => cases hown
  | begin =>
      cases hfree : x.pending? with
      | some pending =>
          simp only [act, hfree] at hact
          cases hact
      | none =>
          simp only [act, hfree, Option.some.injEq] at hact
          subst hact
          have hbegin := hstands.begin hfree
          rw [hfree] at hbegin
          exact ⟨rfl, hopen, e, inlet, hclosed, hbegin, htracks⟩
  | step =>
      cases hfree : x.pending? with
      | some pending =>
          simp only [act, hfree] at hact
          cases hact
      | none =>
          rcases hstands.step hopen hfree with ⟨y, hy, hsame, hasks | hmoves⟩
          · cases hy.symm.trans hact
            exact ⟨hsame, hasks.tracks hopen (hclosed.trans hsame.symm) htracks⟩
          · cases hy.symm.trans hact
            exact ⟨hsame, hmoves.tracks hopen (hclosed.trans hsame.symm) htracks⟩
  | goOn =>
      cases hasked : x.pending? with
      | none =>
          simp only [act, hasked] at hact
          cases hact
      | some pending =>
          cases hletter : x.port.letter? with
          | none =>
              simp only [act, hasked, hletter] at hact
              cases hact
          | some letter =>
              rcases hstands.goOn hclosed hasked hletter with ⟨y, hy, hsame, hmoves⟩
              cases hy.symm.trans hact
              exact ⟨hsame, hmoves.tracks hopen (hclosed.trans hsame.symm) htracks⟩

/-- However the actions are interleaved, the engine alone keeps up, on what has been sent by then. -/
theorem Tracks.follow {coming : List Int} (h : Tracks e₀ fed x)
    (hclosed : x.port.inbound.closed = true → coming = []) (hfollow : x.follow history = some x')
    (hdue : history.filter Action.isOutside <+: Action.due x.port.inbound.closed coming) :
    ∃ fed' coming', Tracks e₀ fed' x' ∧ fed' ++ coming' = fed ++ coming ∧
      (x'.port.inbound.closed = true → coming' = []) ∧
      Action.due x.port.inbound.closed coming =
        history.filter Action.isOutside ++ Action.due x'.port.inbound.closed coming' := by
  induction history generalizing x fed coming with
  | nil =>
      cases hfollow
      exact ⟨fed, coming, h, rfl, hclosed, rfl⟩
  | cons a history ih =>
      rcases exists_act_of_follow_cons hfollow with ⟨y, hact, hrest⟩
      cases hout : a.isOutside with
      | false =>
          rcases h.act_own hout hact with ⟨hsame, htracks⟩
          rw [← hsame] at hclosed
          rw [List.filter_cons_of_neg (by simp [hout]), ← hsame] at hdue ⊢
          exact ih htracks hclosed hrest hdue
      | true =>
          rw [List.filter_cons_of_pos hout] at hdue ⊢
          rcases Action.of_prefix_due hdue with
            ⟨hinbound, ⟨v, rest, rfl, rfl, hlater⟩ | ⟨rfl, rfl, hlater⟩⟩
          · cases hact
            have hopen : (x.port.send v).inbound.closed = false := by
              rw [Port.send, Mailbox.closed_send, hinbound]
            have hnotyet : (x.port.send v).inbound.closed = true → rest = [] := by
              rw [hopen]
              rintro ⟨⟩
            rcases ih (h.send hinbound v) hnotyet hrest (hopen.symm ▸ hlater) with
              ⟨fed', coming', htracks, hfed, hdone, hdue'⟩
            rw [hopen] at hdue'
            rw [List.append_assoc] at hfed
            rw [hinbound]
            exact ⟨fed', coming', htracks, hfed, hdone, congrArg (List.cons _) hdue'⟩
          · cases hact
            rw [hlater]
            rcases ih h.close (fun _ => rfl) hrest (hlater.symm ▸ List.nil_prefix) with
              ⟨fed', coming', htracks, hfed, hdone, hdue'⟩
            rw [Port.close, Mailbox.closed_close, hlater] at hdue'
            rw [hinbound]
            exact ⟨fed', coming', htracks, hfed, hdone, congrArg (List.cons _) hdue'⟩

/-! ## The end -/

theorem follow_append {rest : List Action} (h : x.follow history = some x') :
    x.follow (history ++ rest) = x'.follow rest := by
  simp only [follow, List.foldlM_append] at h ⊢
  rw [h]
  rfl

/-- Neither engine has stopped if the one of the exchange is in the middle of a step. -/
theorem Stands.like_or_going (h : Stands e inlet x) :
    e.Like x.engine ∨ e.outcome? = none ∧ x.engine.outcome? = none := by
  cases h with
  | between like => exact .inl like
  | asks demand like =>
      rw [like.outcome?_eq]
      exact .inr (Engine.going_of_demand_eq_input demand)

theorem Stands.outcome?_eq (h : Stands e inlet x) : x.engine.outcome? = e.outcome? := by
  rcases h.like_or_going with hlike | ⟨hnone, hnone'⟩
  · exact hlike.outcome?_eq
  · rw [hnone, hnone']

/-- A step that has asked for input has got an answer once the channel is closed. -/
theorem Stands.answered {pending : Pending} (h : Stands e inlet x)
    (hdone : x.port.inbound.closed = true) (hasked : x.pending? = some pending) :
    ∃ letter, x.port.letter? = some letter := by
  cases h with
  | between like free => cases free.symm.trans hasked
  | asks demand like asked holds =>
      cases holds with
      | waits letter waiting empty opened => cases opened.symm.trans hdone
      | given letter => exact ⟨_, letter⟩
      | told letter => exact ⟨_, letter⟩

/-- Once the channel is closed a step that has asked for input can go on. -/
theorem Stands.goOn_of_closed (h : Stands e inlet x)
    (hclosed : inlet.closed = x.port.inbound.closed) (hdone : x.port.inbound.closed = true)
    (hasked : x.pending?.isSome = true) :
    ∃ x', x.act .goOn = some x' ∧ x'.port.inbound.closed = x.port.inbound.closed ∧
      Moves e inlet x x' := by
  rcases Option.isSome_iff_exists.mp hasked with ⟨pending, hpending⟩
  rcases h.answered hdone hpending with ⟨letter, hletter⟩
  exact h.goOn hclosed hpending hletter

/-- Once the channel is closed the engine can make its next move, whatever it was in the middle of. -/
theorem Stands.moves (h : Stands e inlet x) (hopen : x.port.outbound.closed = false)
    (hclosed : inlet.closed = x.port.inbound.closed) (hdone : x.port.inbound.closed = true)
    (hgoing : e.status.stop? = none) :
    ∃ rest x', (∀ a ∈ rest, a.isOutside = false) ∧ x.follow rest = some x' ∧
      x'.port.inbound.closed = x.port.inbound.closed ∧ Moves e inlet x x' := by
  cases hfree : x.pending? with
  | some pending =>
      rcases h.goOn_of_closed hclosed hdone (by rw [hfree]; rfl) with ⟨x', hact, hsame, hmoves⟩
      refine ⟨[.goOn], x', by simp [Action.isOutside], ?_, hsame, hmoves⟩
      simp [follow, hact]
  | none =>
      rcases h.step hopen hfree with ⟨y, hact, hsame, hasks | hmoves⟩
      · rcases hasks.stands.goOn_of_closed (hclosed.trans hsame.symm) (hsame.trans hdone)
            (hasks.asked hgoing) with
          ⟨x', hact', hsame', e', inlet', δ, hpasses, hstands, hbetween, houtbound⟩
        rw [hasks.outbound_eq] at hpasses houtbound
        refine ⟨[.step, .goOn], x', by simp [Action.isOutside], ?_, hsame'.trans hsame,
          e', inlet', δ, hpasses, hstands, hbetween, houtbound⟩
        simp [follow, hact, hact']
      · refine ⟨[.step], y, by simp [Action.isOutside], ?_, hsame, hmoves⟩
        simp [follow, hact]

/-- Once the channel is closed the engine can come to the end of the run that the engine alone has still
to make. -/
theorem Stands.finish {fuel : Nat} {outcome : Except Fault RunResult} {e e' : Engine}
    {inlet : Channel Empty} {x : Exchange} {l : Link} (h : Stands e inlet x)
    (hopen : x.port.outbound.closed = false) (hclosed : inlet.closed = x.port.inbound.closed)
    (hdone : x.port.inbound.closed = true) (hgoing : e.status.stop? = none)
    (hrun : Engine.runOn Link.device fuel
      (e.step Link.device (Link.alone inlet.buffer x.port.outbound.buffer)) =
        some (e', l, .answered outcome)) :
    ∃ rest x', (∀ a ∈ rest, a.isOutside = false) ∧ x.follow rest = some x' ∧
      x'.engine.outcome? = some outcome := by
  rcases h.moves hopen hclosed hdone hgoing with
    ⟨rest, y, hown, hfollow, hsame, e₁, inlet₁, δ, hpasses, hstands, hfree, houtbound⟩
  rw [Channel.accept_unclosed hopen] at houtbound
  have hbuffer : y.port.outbound.buffer = x.port.outbound.buffer ++ δ.value?.toList := by
    rw [houtbound]
  have hopen₁ : y.port.outbound.closed = false := by
    rw [houtbound, hopen]
  have hclosed₁ : inlet₁.closed = y.port.inbound.closed := by
    rw [hpasses.inlet_eq.1, hclosed, hsame]
  have halone : ∃ answer,
      e.step Link.device (Link.alone (inlet.buffer ++ []) x.port.outbound.buffer) =
        (e₁, Link.alone (inlet₁.buffer ++ []) (x.port.outbound.buffer ++ δ.value?.toList),
          .answered answer) := hpasses.step_alone _ hopen fun _ => rfl
  rw [List.append_nil, List.append_nil, ← hbuffer] at halone
  rcases halone with ⟨answer, hstep⟩
  have hagrees := Engine.agrees_step hgoing Link.device
    (Link.alone inlet.buffer x.port.outbound.buffer)
  rw [hstep] at hagrees hrun
  cases hclosing : (Turn.answered answer).closing? e₁.steps with
  | some result =>
      rw [Engine.runOn_of_closing hclosing] at hrun
      cases hrun
      refine ⟨rest, y, hown, hfollow, ?_⟩
      rw [(hstands.of_free hfree).1.outcome?_eq]
      exact hagrees.outcome?_eq hclosing
  | none =>
      cases Engine.eq_of_closing_eq_none hclosing
      have hgoing₁ : e₁.status.stop? = none := by
        rw [hagrees.status_eq]
        rfl
      cases fuel with
      | zero => cases hrun
      | succ fuel =>
          rcases hstands.finish hopen₁ hclosed₁ (hsame.trans hdone) hgoing₁ hrun with
            ⟨later, x', hown', hfollow', houtcome⟩
          refine ⟨rest ++ later, x', ?_, (follow_append hfollow).trans hfollow', houtcome⟩
          intro a ha
          rcases List.mem_append.mp ha with hrest | hlater
          · exact hown a hrest
          · exact hown' a hlater

end Exchange

end WordMachine
