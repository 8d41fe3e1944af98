import WordMachine.Device.Link
import WordMachine.Engine
import WordMachine.Engine.Naming

/-!
# Process networks

Several engines in a row, each with a memory of its own. A channel leads into every engine and out
to the next; the last one leads to an observer, who records every value. In a ring the observer also
passes the value on to the first engine. At the start each channel into an engine holds the engine's
phase, and the first one the signal behind it.

The network moves one process at a time: an engine makes a step unless it has stopped or waits on an
empty open channel, the observer receives a value or learns that there will be none. An engine that
stops closes the channel behind it, and so does the observer with the channel into the first engine.
`settle` moves processes until none can move.
-/

namespace WordMachine

structure Wiring where
  -- Whether the observer passes values on to the first engine.
  feedback : Bool := false
  -- The value behind the first engine's phase.
  signal : Int := 0
  deriving DecidableEq, Repr

/-- Engines in a row, with a channel before each of them and one behind the last. -/
inductive Row where
  -- The channel behind the last engine.
  | outlet (channel : Channel Empty)
  -- A channel, the engine it leads into, and what comes behind the engine.
  | stage (inlet : Channel Empty) (engine : Engine) (rest : Row)

structure Network where
  -- Whether the observer passes values on to the first engine.
  feedback : Bool
  -- The engines and their channels. The last channel is the observer's.
  row : Row
  -- The values that the observer has received, oldest first.
  observed : Array Int := #[]
  -- Whether the observer expects more values.
  observing : Bool := true

inductive Process where
  | engine (place : Nat)
  | observer
  deriving DecidableEq, Repr

structure NetworkResult where
  signal : Int
  observed : List Int
  engines : List RunResult
  deriving DecidableEq, Repr

inductive Verdict (α : Type) where
  -- Every process came to its end.
  | finished (result : Except Fault α)
  -- The processes wait for each other.
  | deadlock
  deriving Repr

def Verdict.map {α β : Type} (f : α → β) : Verdict α → Verdict β
  | finished result => finished (result.map f)
  | deadlock => deadlock

namespace Row

def engines : Row → List Engine
  | outlet _ => []
  | stage _ engine rest => engine :: rest.engines

def channels : Row → List (Channel Empty)
  | outlet channel => [channel]
  | stage inlet _ rest => inlet :: rest.channels

def first : Row → Channel Empty
  | outlet channel => channel
  | stage inlet _ _ => inlet

def withFirst (channel : Channel Empty) : Row → Row
  | outlet _ => outlet channel
  | stage _ engine rest => stage channel engine rest

def last : Row → Channel Empty
  | outlet channel => channel
  | stage _ _ rest => rest.last

def withLast (channel : Channel Empty) : Row → Row
  | outlet _ => outlet channel
  | stage inlet engine rest => stage inlet engine (rest.withLast channel)

/-- Steps an engine with its channel and the row behind it. An engine that stops closes the channel
behind it. The flag tells whether it could move. -/
def stepStage (inlet : Channel Empty) (engine : Engine) (rest : Row) : Row × Bool :=
  match engine.status.stop? with
  | some _ => (stage inlet engine rest, false)
  | none =>
    match engine.step Link.device ⟨inlet, rest.first⟩ with
    | (engine, link, .waiting _) => (stage link.inbound engine rest, false)
    | (engine, link, .answered _) =>
      -- Whoever stops tells those behind that nothing more will come.
      match engine.status.stop? with
      | none => (stage link.inbound engine (rest.withFirst link.outbound), true)
      | some _ => (stage link.inbound engine (rest.withFirst link.outbound.close.1), true)

def step : Nat → Row → Row × Bool
  | _, outlet channel => (outlet channel, false)
  | 0, stage inlet engine rest => stepStage inlet engine rest
  | place + 1, stage inlet engine rest =>
    match rest.step place with
    | (rest, moved) => (stage inlet engine rest, moved)

end Row

namespace Network

/-- The channel into the engine at a place, as it is at the start. -/
def inlet (wiring : Wiring) (place : Nat) (phase : Int) : Channel Empty :=
  { name := Engine.defaultName place
    buffer := if place = 0 then [phase, wiring.signal] else [phase]
    closed := place = 0 && !wiring.feedback }

def launch (place : Nat) (image : Image) : Engine :=
  { (Engine.load (Engine.defaultName place) image).begin with status := .running }

/-- The engines of some programs with their phases, from a place on, as they are at the start. -/
def startFrom (wiring : Wiring) (place : Nat) : List (Image × Int) → Row
  | [] => .outlet { name := "observer" }
  | (image, phase) :: rest =>
    .stage (inlet wiring place phase) (launch place image) (startFrom wiring (place + 1) rest)

def start (wiring : Wiring) (images : List Image) (phases : List Int) : Network :=
  { feedback := wiring.feedback
    row := startFrom wiring 0 (images.zip phases) }

def forward (row : Row) (value : Int) : Row :=
  match row.first.send value with
  | .ok (channel, _) => row.withFirst channel
  | .error _ => row

/-- Lets the observer receive. The flag tells whether it could move. -/
def observe (n : Network) : Network × Bool :=
  if n.observing then
    match n.row.last.poll with
    | .empty => (n, false)
    | .ended =>
      ({ n with observing := false, row := n.row.withFirst n.row.first.close.1 }, true)
    | .value value rest =>
      let row := n.row.withLast rest
      let row := if n.feedback then forward row value else row
      ({ n with row, observed := n.observed.push value }, true)
  else (n, false)

/-- Moves a process. The flag tells whether it could move; if not, the network is as before. -/
def advance (n : Network) : Process → Network × Bool
  | .observer => n.observe
  | .engine place =>
    match n with
    | ⟨feedback, row, observed, observing⟩ =>
      match row.step place with
      | (row, moved) => (⟨feedback, row, observed, observing⟩, moved)

def processes (n : Network) : List Process :=
  (List.range n.row.engines.length).map .engine ++ [.observer]

/-- Moves the processes of a round one after another, each for as long as it can move, and starts
another round if any of them could. There is no answer if this takes `fuel` attempts or more. -/
def settleFrom : Nat → List Process → Bool → Network → Option Network
  | 0, _, _, _ => none
  -- A whole round without a move: nothing can move any more.
  | _ + 1, [], false, n => some n
  | fuel + 1, [], true, n => settleFrom fuel n.processes false n
  | fuel + 1, p :: later, moved, n =>
    match n.advance p with
    | (n, true) => settleFrom fuel (p :: later) true n
    | (n, false) => settleFrom fuel later moved n

def settle (fuel : Nat) (n : Network) : Option Network :=
  settleFrom fuel n.processes false n

def isOver (n : Network) : Bool :=
  !n.observing && n.row.engines.all fun e => e.status.stop?.isSome

/-- The reports of the engines, or the fault of the first engine that has one. -/
def reports : List Engine → Except Fault (List RunResult)
  | [] => .ok []
  | e :: rest =>
    match e.outcome? with
    | some (.error why) => .error why
    | some (.ok result) => (reports rest).map (result :: ·)
    | none => reports rest

def result (n : Network) : Except Fault NetworkResult :=
  match reports n.row.engines with
  | .error why => .error why
  | .ok engines =>
    match n.observed.back? with
    | none => .error .noOutput
    | some signal => .ok { signal, observed := n.observed.toList, engines }

def verdict (n : Network) : Verdict NetworkResult :=
  if n.isOver then .finished n.result else .deadlock

def run (fuel : Nat) (wiring : Wiring) (images : List Image) (phases : List Int) :
    Option (Verdict NetworkResult) :=
  if phases.isEmpty || images.length != phases.length then
    some (.finished (.error (.networkShape images.length phases.length)))
  else (settle fuel (start wiring images phases)).map verdict

/-- Runs as many copies of a program as there are phases. -/
def runCopies (fuel : Nat) (wiring : Wiring) (image : Image) (phases : List Int) :
    Option (Verdict NetworkResult) :=
  run fuel wiring (phases.map fun _ => image) phases

end Network

end WordMachine
