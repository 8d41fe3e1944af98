import WordMachine.Engine

/-!
# Sessions

A session is an engine on a device that is called from outside while the device's state changes. A
call that finds no input stays outstanding; further calls may be made meanwhile. Whenever the device
has something new to say, `wake` lets the outstanding calls go on, the longest waiting first.

Each call executes the instruction that it decoded when it was made, also if the engine has moved on
since.
-/

namespace WordMachine

inductive Request where
  | step
  -- All instructions up to the end.
  | run
  deriving DecidableEq, Repr

inductive Answer where
  | step (result : Except Fault (Option Ending))
  | run (result : Except Fault RunResult)
  deriving Repr

/-- A call without an answer yet. -/
structure Call where
  ticket : Nat
  request : Request
  pending : Pending
  deriving Repr

/-- An engine on a device, with the calls that wait for input. -/
structure Session (σ : Type) where
  engine : Engine
  outside : σ
  -- The calls that wait, longest waiting first.
  outstanding : List Call := []
  nextTicket : Nat := 0

namespace Session

variable {σ : Type}

/-- Enters how a call turned out: an answer is handed on, a call that waits joins the others. -/
def enter {α : Type} (outstanding : List Call) (nextTicket ticket : Nat) (request : Request)
    (answer : Except Fault α → Answer) :
    Engine × σ × Turn α → Session σ × Option Answer
  | (engine, outside, .answered result) =>
    ({ engine, outside, outstanding, nextTicket }, some (answer result))
  | (engine, outside, .waiting pending) =>
    ({ engine, outside, outstanding := outstanding ++ [⟨ticket, request, pending⟩], nextTicket },
      none)

/-- Makes a call. A run gets no answer if it takes more than `fuel` steps after the first. -/
def call (d : Device σ) (fuel : Nat) (s : Session σ) (request : Request) :
    Option (Session σ × Option Answer) :=
  match s with
  | ⟨engine, outside, outstanding, ticket⟩ =>
    match request with
    | .step =>
      some (enter outstanding (ticket + 1) ticket .step .step (engine.step d outside))
    | .run =>
      (engine.run d fuel outside).map (enter outstanding (ticket + 1) ticket .run .run)

/-- Lets a call go on with the device's reply. -/
def goOn (d : Device σ) (fuel : Nat) (engine : Engine) (outside : σ) (outstanding : List Call)
    (nextTicket : Nat) (call : Call) (reply : Reply) : Option (Session σ × Option Answer) :=
  let (engine, turn) := engine.resume call.pending reply
  match call.request with
  | .step => some (enter outstanding nextTicket call.ticket .step .step (engine, outside, turn))
  | .run =>
    (Engine.runOn d fuel (engine, outside, turn)).map
      (enter outstanding nextTicket call.ticket .run .run)

/-- Lets outstanding calls go on as long as the device has replies for them, and lists the answers
by the numbers of the calls. There is no result if more than `fuel` replies are needed. -/
def wake (d : Device σ) : Nat → Session σ → Option (Session σ × List (Nat × Answer))
  | _, ⟨engine, outside, [], nextTicket⟩ => some (⟨engine, outside, [], nextTicket⟩, [])
  | fuel, ⟨engine, outside, call :: outstanding, nextTicket⟩ =>
    match d.request outside with
    -- The longest waiting call takes the reply; without one for it, none is left for the others.
    | (.wait, outside) => some (⟨engine, outside, call :: outstanding, nextTicket⟩, [])
    | (reply, outside) =>
      match fuel with
      | 0 => none
      | fuel + 1 =>
        match goOn d fuel engine outside outstanding nextTicket call reply with
        | none => none
        | some (s, answer) =>
          match wake d fuel s with
          | none => none
          | some (s, later) =>
            some (s, (answer.map fun result => (call.ticket, result)).toList ++ later)

def change (s : Session σ) (update : σ → σ) : Session σ :=
  { s with outside := update s.outside }

end Session

end WordMachine
