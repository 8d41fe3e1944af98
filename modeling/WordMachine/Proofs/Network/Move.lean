import WordMachine.Network
import WordMachine.Proofs.Channel
import WordMachine.Proofs.Engine.Step

/-!
# Moves of a network

What a process of a network can do in one move, said once:

* `Engine.Passes` for an engine between two channels, with what it does to the channel behind it as a
  `Delivery`;
* `Row.Moves` for an engine in a row;
* `Network.Moves` for an engine or the observer.

`Row.moves_iff` and `Network.moves_iff` tie these relations to the functions that make the moves, and
`Engine.stopped_or_awaits_or_passes` says when there is no move. From then on whatever every move
keeps is proved by cases on the move. `Network.follow` makes moves in a given order.
-/

namespace WordMachine

/-! ## Engines between channels -/

namespace Engine

variable {e e' : Engine} {inlet inlet' outlet outlet' : Channel Empty} {δ ε : Delivery}

/-- What an engine sends in a move that leaves it as it is now. Whoever stops closes the channel. -/
def delivery (e : Engine) (value? : Option Int) : Delivery :=
  { value?, final := e.status.stop?.isSome }

/-- The moves of an engine between two channels: what becomes of the engine and of the channel before
it, and what is done to the channel behind it. -/
inductive Passes (e : Engine) (inlet outlet : Channel Empty) :
    Engine → Channel Empty → Delivery → Prop where
  | alone {e' : Engine} {answer : Except Fault (Option Ending)}
      (going : e.status.stop? = none) (demand : e.demand = .nothing e' answer) :
      Passes e inlet outlet e' inlet (e'.delivery none)
  | receive {e₁ : Engine} {pending : Pending} {v : Int} {rest : Channel Empty}
      (going : e.status.stop? = none) (demand : e.demand = .input e₁ pending)
      (poll : inlet.poll = .value v rest) :
      Passes e inlet outlet (e₁.resume pending (.value v)).1 rest
        ((e₁.resume pending (.value v)).1.delivery none)
  | ended {e₁ : Engine} {pending : Pending}
      (going : e.status.stop? = none) (demand : e.demand = .input e₁ pending)
      (poll : inlet.poll = .ended) :
      Passes e inlet outlet (e₁.finish .endOfStream) inlet
        ((e₁.finish .endOfStream).delivery none)
  | send {e₁ : Engine} {w : Word}
      (going : e.status.stop? = none) (demand : e.demand = .output e₁ w)
      (opened : outlet.closed = false) :
      Passes e inlet outlet (e₁.settle (.ok ())).1 inlet
        ((e₁.settle (.ok ())).1.delivery (some w.toInt))
  | refused {e₁ : Engine} {w : Word}
      (going : e.status.stop? = none) (demand : e.demand = .output e₁ w)
      (closed : outlet.closed = true) :
      Passes e inlet outlet (e₁.fail (.channelClosed outlet.name)) inlet
        ((e₁.fail (.channelClosed outlet.name)).delivery none)

/-- The engine is about to receive a value, and the channel before it is empty and open. -/
structure Awaits (e : Engine) (inlet : Channel Empty) : Prop where
  going : e.status.stop? = none
  asks : ∃ dest, e.machine.decode = .ok (.input dest)
  empty : inlet.buffer = []
  opened : inlet.closed = false

/-- An engine that cannot move has stopped or waits for a value; there is no third way to be stuck. -/
theorem stopped_or_awaits_or_passes (e : Engine) (inlet outlet : Channel Empty) :
    e.status.stop?.isSome = true ∨ e.Awaits inlet ∨
      ∃ e' inlet' δ, e.Passes inlet outlet e' inlet' δ := by
  cases hgoing : e.status.stop? with
  | some how => exact .inl rfl
  | none =>
      right
      cases hdemand : e.demand with
      | nothing e' answer => exact .inr ⟨_, _, _, .alone hgoing hdemand⟩
      | output e₁ w =>
          cases hclosed : outlet.closed with
          | true => exact .inr ⟨_, _, _, .refused hgoing hdemand hclosed⟩
          | false => exact .inr ⟨_, _, _, .send hgoing hdemand hclosed⟩
      | input e₁ pending =>
          cases hpoll : inlet.poll with
          | value v rest => exact .inr ⟨_, _, _, .receive hgoing hdemand hpoll⟩
          | ended => exact .inr ⟨_, _, _, .ended hgoing hdemand hpoll⟩
          | empty =>
              rcases Channel.poll_eq_empty_iff.mp hpoll with ⟨hempty, hopen⟩
              rcases eq_of_demand_eq_input hdemand with ⟨dest, -, hdecode, -, -⟩
              exact .inl ⟨hgoing, ⟨dest, hdecode⟩, hempty, hopen⟩

/-- Asking a waiting engine for a step in vain. -/
theorem Awaits.step_eq (outlet : Channel Empty) : e.Awaits inlet → ∃ dest,
    e.step Link.device ⟨inlet, outlet⟩ =
      (e.executing (.input dest), ⟨inlet, outlet⟩, .waiting ⟨e.machine.pc, dest⟩) := by
  intro h
  rcases h.asks with ⟨dest, hdecode⟩
  have hdemand : e.demand = .input (e.executing (.input dest)) ⟨e.machine.pc, dest⟩ := by
    rw [demand_of_ok h.going hdecode, ← withMachine_executing]
    rfl
  have hpoll : inlet.poll = .empty := Channel.poll_eq_empty_iff.mpr ⟨h.empty, h.opened⟩
  refine ⟨dest, ?_⟩
  simp [step_eq_meet, hdemand, Demand.meet, Link.device, Link.request, hpoll, resume]

namespace Passes

theorem going : e.Passes inlet outlet e' inlet' δ → e.status.stop? = none := by
  intro h
  cases h <;> assumption

/-- An engine that stops closes the channel behind it, and only then. -/
theorem final_eq : e.Passes inlet outlet e' inlet' δ → δ.final = e'.status.stop?.isSome := by
  intro h
  cases h <;> rfl

/-- Receiving neither closes nor renames a channel. -/
theorem inlet_eq : e.Passes inlet outlet e' inlet' δ →
    inlet'.closed = inlet.closed ∧ inlet'.name = inlet.name := by
  intro h
  cases h with
  | receive going demand poll =>
      exact ⟨Channel.closed_of_poll_value poll, Channel.name_of_poll_value poll⟩
  | _ => exact ⟨rfl, rfl⟩

/-- Of the channel behind it an engine sees no more than whether it is closed. -/
theorem congr (hclosed : outlet'.closed = outlet.closed) (hname : outlet'.name = outlet.name) :
    e.Passes inlet outlet e' inlet' δ → e.Passes inlet outlet' e' inlet' δ := by
  intro h
  cases h with
  | alone going demand => exact .alone going demand
  | receive going demand poll => exact .receive going demand poll
  | ended going demand poll => exact .ended going demand poll
  | send going demand opened => exact .send going demand (hclosed.trans opened)
  | refused going demand closed =>
      rw [← hname]
      exact .refused going demand (hclosed.trans closed)

/-- What is sent to the engine meanwhile is still there after the move. -/
theorem accept (ε : Delivery) : e.Passes inlet outlet e' inlet' δ →
    e.Passes (inlet.accept ε) outlet e' (inlet'.accept ε) δ := by
  intro h
  cases h with
  | alone going demand => exact .alone going demand
  | receive going demand poll =>
      exact .receive going demand (Channel.poll_accept_value poll ε)
  | ended going demand poll =>
      rw [Channel.accept_of_ended poll]
      exact .ended going demand poll
  | send going demand opened => exact .send going demand opened
  | refused going demand closed => exact .refused going demand closed

/-- A passing engine answers its step. Only its final delivery is not seen by the engine, since
whoever watches it does the closing. -/
theorem step_eq : e.Passes inlet outlet e' inlet' δ → ∃ answer,
    e.step Link.device ⟨inlet, outlet⟩ =
      (e', ⟨inlet', outlet.accept { δ with final := false }⟩, .answered answer) := by
  intro h
  rw [step_eq_meet]
  cases h with
  | alone going demand => simp [demand, Demand.meet, delivery, Channel.accept_nothing]
  | receive going demand poll =>
      simp [demand, Demand.meet, Link.device, Link.request, poll, delivery, resume,
        Channel.accept_nothing]
  | ended going demand poll =>
      simp [demand, Demand.meet, Link.device, Link.request, poll, delivery, resume,
        Channel.accept_nothing]
  | send going demand opened =>
      simp [demand, Demand.meet, Link.device, Link.emit, Channel.send_of_open opened, settle,
        delivery, Channel.accept, opened]
  | refused going demand closed =>
      simp [demand, Demand.meet, Link.device, Link.emit, Channel.send_of_closed closed, settle,
        delivery, Channel.accept_nothing]

end Passes

end Engine

/-! ## Engines in a row -/

namespace Row

variable {e e' : Engine} {inlet inlet' : Channel Empty} {row row' rest rest' : Row} {δ : Delivery}
  {i : Nat}

@[simp] theorem first_withFirst (c : Channel Empty) (row : Row) : (row.withFirst c).first = c := by
  cases row <;> rfl

@[simp] theorem withFirst_first (row : Row) : row.withFirst row.first = row := by
  cases row <;> rfl

def accept (row : Row) (δ : Delivery) : Row :=
  row.withFirst (row.first.accept δ)

@[simp] theorem first_accept (row : Row) (δ : Delivery) :
    (row.accept δ).first = row.first.accept δ :=
  first_withFirst _ row

theorem accept_nothing (row : Row) : row.accept {} = row := by
  rw [accept, Channel.accept_nothing, withFirst_first]

inductive Moves : Nat → Row → Row → Prop where
  | here {e e' : Engine} {inlet inlet' : Channel Empty} {rest : Row} {δ : Delivery}
      (passes : e.Passes inlet rest.first e' inlet' δ) :
      Moves 0 (stage inlet e rest) (stage inlet' e' (rest.accept δ))
  | behind {e : Engine} {inlet : Channel Empty} {rest rest' : Row} {i : Nat}
      (moves : Moves i rest rest') : Moves (i + 1) (stage inlet e rest) (stage inlet e rest')

/-- The row sees of a move what the engine delivers, and no more. -/
theorem stepStage_of_passes : e.Passes inlet rest.first e' inlet' δ →
    stepStage inlet e rest = (stage inlet' e' (rest.accept δ), true) := by
  intro h
  rcases h.step_eq with ⟨answer, hstep⟩
  have hfinal := h.final_eq
  rcases δ with ⟨value?, final⟩
  simp only at hstep hfinal
  subst hfinal
  simp only [stepStage, h.going, hstep]
  cases hstop : e'.status.stop? with
  | none => rfl
  | some how =>
      have hclose : (rest.first.accept { value? }).close.1 =
          rest.first.accept { value?, final := true } := by
        simp [Channel.fst_close, Channel.accept]
      simp only [hclose]
      rfl

theorem stepStage_of_stopped : e.status.stop?.isSome = true →
    stepStage inlet e rest = (stage inlet e rest, false) := by
  intro h
  rcases Option.isSome_iff_exists.mp h with ⟨how, hstop⟩
  simp [stepStage, hstop]

theorem stepStage_of_awaits (rest : Row) : e.Awaits inlet → ∃ dest,
    stepStage inlet e rest = (stage inlet (e.executing (.input dest)) rest, false) := by
  intro h
  rcases h.step_eq rest.first with ⟨dest, hstep⟩
  exact ⟨dest, by simp only [stepStage, h.going, hstep]⟩

def move (row : Row) (place : Nat) : Option Row :=
  match row.step place with
  | (row, true) => some row
  | (_, false) => none

theorem move_of_moves : Moves i row row' → row.move i = some row' := by
  intro h
  induction h with
  | here passes => simp [move, step, stepStage_of_passes passes]
  | @behind e inlet rest rest' i _ ih =>
      rcases hstep : rest.step i with ⟨row, moved⟩
      cases moved with
      | true => simpa [move, step, hstep] using ih
      | false => simp [move, hstep] at ih

theorem moves_of_move : row.move i = some row' → Moves i row row' := by
  intro h
  induction row generalizing i row' with
  | outlet c => cases i <;> cases h
  | stage inlet e rest ih =>
      cases i with
      | succ i =>
          rcases hstep : rest.step i with ⟨row, moved⟩
          cases moved with
          | false => simp [move, step, hstep] at h
          | true =>
              have hrow : stage inlet e row = row' := by simpa [move, step, hstep] using h
              rw [← hrow]
              exact .behind (ih (by simp [move, hstep]))
      | zero =>
          rcases e.stopped_or_awaits_or_passes inlet rest.first with
            hstopped | hawaits | ⟨e', inlet', δ, hpasses⟩
          · simp [move, step, stepStage_of_stopped hstopped] at h
          · rcases stepStage_of_awaits rest hawaits with ⟨dest, hstage⟩
            simp [move, step, hstage] at h
          · have hrow : stage inlet' e' (rest.accept δ) = row' := by
              simpa [move, step, stepStage_of_passes hpasses] using h
            rw [← hrow]
            exact .here hpasses

/-- The relation and the function say the same. The relation is for inductions over rows, the
function for running them. -/
theorem moves_iff : row.move i = some row' ↔ Moves i row row' :=
  ⟨moves_of_move, move_of_moves⟩

/-- An engine that cannot move has stopped or waits. -/
theorem stopped_or_awaits_of_move_eq_none : (stage inlet e rest).move 0 = none →
    e.status.stop?.isSome = true ∨ e.Awaits inlet := by
  intro h
  rcases e.stopped_or_awaits_or_passes inlet rest.first with
    hstopped | hawaits | ⟨e', inlet', δ, hpasses⟩
  · exact .inl hstopped
  · exact .inr hawaits
  · rw [move_of_moves (.here hpasses)] at h
    cases h

/-- A stuck place stays stuck, whatever stands before it in the row. -/
theorem move_eq_none_of_behind : (stage inlet e rest).move (i + 1) = none →
    rest.move i = none := by
  intro h
  cases hmove : rest.move i with
  | none => rfl
  | some rest' =>
      rw [move_of_moves (.behind (moves_of_move hmove))] at h
      cases h

end Row

/-! ## Engines and the observer -/

namespace Network

variable {n n' : Network} {p : Process} {order : List Process} {row : Row} {c : Channel Empty}
  {v : Int} {i : Nat}

/-- What the observer sends to the first engine when it receives a value. -/
def echo (n : Network) (v : Int) : Delivery :=
  { value? := if n.feedback then some v else none }

inductive Moves (n : Network) : Process → Network → Prop where
  | engine {i : Nat} {row : Row} (moves : n.row.Moves i row) : Moves n (.engine i) { n with row }
  | receive {v : Int} {c : Channel Empty} (observing : n.observing = true)
      (poll : n.row.last.poll = .value v c) :
      Moves n .observer
        { n with row := (n.row.withLast c).accept (n.echo v), observed := n.observed.push v }
  | ended (observing : n.observing = true) (poll : n.row.last.poll = .ended) :
      Moves n .observer { n with observing := false, row := n.row.accept { final := true } }

theorem forward_eq_accept (row : Row) (v : Int) :
    forward row v = row.accept { value? := some v } := by
  cases hclosed : row.first.closed with
  | true =>
      rw [forward, Channel.send_of_closed hclosed, Row.accept, Channel.accept_value_of_closed hclosed,
        Row.withFirst_first]
  | false =>
      have hsame : row.first.accept { value? := some v } =
          { row.first with buffer := row.first.buffer ++ [v] } := by
        simp [Channel.accept, hclosed]
      rw [forward, Channel.send_of_open hclosed, Row.accept, hsame]

/-- In a ring, the value that the observer receives is also the first engine's next input. -/
theorem observe_of_value : n.observing = true → n.row.last.poll = .value v c →
    n.observe =
      ({ n with row := (n.row.withLast c).accept (n.echo v), observed := n.observed.push v },
        true) := by
  intro hobserving hpoll
  rcases n with ⟨feedback, row, observed, observing⟩
  simp only at hobserving hpoll
  subst hobserving
  cases feedback with
  | true => simp [observe, hpoll, echo, forward_eq_accept]
  | false => simp [observe, hpoll, echo, Row.accept_nothing]

/-- When the observer sees the end, the first engine's input ends as well. -/
theorem observe_of_ended : n.observing = true → n.row.last.poll = .ended →
    n.observe = ({ n with observing := false, row := n.row.accept { final := true } }, true) := by
  intro hobserving hpoll
  simp [observe, hobserving, hpoll, Row.accept, Channel.accept_final]

theorem observe_of_empty : n.row.last.poll = .empty → n.observe = (n, false) := by
  intro hpoll
  cases hobserving : n.observing <;> simp [observe, hobserving, hpoll]

def move (n : Network) (p : Process) : Option Network :=
  match n.advance p with
  | (n, true) => some n
  | (_, false) => none

theorem move_engine (n : Network) (i : Nat) :
    n.move (.engine i) = (n.row.move i).map fun row => { n with row } := by
  rcases n with ⟨feedback, row, observed, observing⟩
  rcases hstep : row.step i with ⟨row', moved⟩
  cases moved <;> simp [move, advance, Row.move, hstep]

theorem move_of_moves : n.Moves p n' → n.move p = some n' := by
  intro h
  cases h with
  | engine moves => rw [move_engine, Row.move_of_moves moves, Option.map_some]
  | receive observing poll => simp [move, advance, observe_of_value observing poll]
  | ended observing poll => simp [move, advance, observe_of_ended observing poll]

theorem moves_of_move : n.move p = some n' → n.Moves p n' := by
  intro h
  cases p with
  | engine i =>
      rw [move_engine] at h
      rcases Option.map_eq_some_iff.mp h with ⟨row, hrow, rfl⟩
      exact .engine (Row.moves_of_move hrow)
  | observer =>
      cases hobserving : n.observing with
      | false => simp [move, advance, observe, hobserving] at h
      | true =>
          cases hpoll : n.row.last.poll with
          | empty => simp [move, advance, observe_of_empty hpoll] at h
          | value v c =>
              simp only [move, advance, observe_of_value hobserving hpoll, Option.some.injEq] at h
              rw [← h]
              exact .receive hobserving hpoll
          | ended =>
              simp only [move, advance, observe_of_ended hobserving hpoll, Option.some.injEq] at h
              rw [← h]
              exact .ended hobserving hpoll

theorem moves_iff : n.move p = some n' ↔ n.Moves p n' :=
  ⟨moves_of_move, move_of_moves⟩

def Stuck (n : Network) : Prop :=
  ∀ p, n.move p = none

/-! ## Orders of moves -/

/-- The network after moves of some processes, one after another, if each of them can move when it
is its turn. -/
def follow : Network → List Process → Option Network
  | n, [] => some n
  | n, p :: order =>
    match n.move p with
    | some n => follow n order
    | none => none

theorem follow_cons : n.Moves p n' → n.follow (p :: order) = n'.follow order := by
  intro h
  simp [follow, move_of_moves h]

/-- A list of moves can be taken apart from the front. -/
theorem exists_moves_of_follow_cons : n.follow (p :: order) = some n' →
    ∃ m, n.Moves p m ∧ m.follow order = some n' := by
  intro h
  unfold follow at h
  cases hmove : n.move p with
  | none => simp [hmove] at h
  | some m => exact ⟨m, moves_of_move hmove, by simpa [hmove] using h⟩

/-- What every move keeps is there after any order of moves. -/
theorem follow_invariant (inv : Network → Prop)
    (hmoves : ∀ n p n', inv n → n.Moves p n' → inv n') :
    inv n → n.follow order = some n' → inv n' := by
  intro hstart h
  induction order generalizing n with
  | nil =>
      cases h
      exact hstart
  | cons p order ih =>
      rcases exists_moves_of_follow_cons h with ⟨m, hm, hrest⟩
      exact ih (hmoves n p m hstart hm) hrest

end Network

end WordMachine
