import WordMachine.Proofs.Channel.History
import WordMachine.Proofs.Engine.Suspension
import WordMachine.Proofs.Engine.Faults

/-!
# Steps that overlap

A step has pieces, and other steps may be called between them. If it waits for input it has decoded its
instruction, and completes that instruction when the input has come, wherever the engine is by then. If it
waits for nothing it is suspended all the same: until it has gone on, the engine has not counted it, has
not stopped, and may still point to its instruction.

`Overlap` lets any number of steps be under way, piece by piece, and whoever sends to the engine act in
between. A history is timely if a step is called, and a step that has waited for input goes on, only while
no other step is in the middle of its instruction, and if whoever has waited goes on while the engine still
asks for the input. Steps that are called only when the one before has been answered are timely. Two steps
that are called in one go are not, whether they want input or not.

`Engine.OneByOne` makes steps without a break, on a link that holds from the beginning all that is sent
(`Link.holding`).
-/

namespace WordMachine

/-! ## Gates -/

/-- An engine's ends of the channel before it, where any number of its receives may wait, and of the
channel behind it. -/
structure Gate where
  inbound : Traffic
  outbound : Channel Empty

namespace Gate

/-- Receives. The engine goes on later, also if there is something to be received already. -/
def request (g : Gate) : Reply × Gate :=
  (.wait, { g with inbound := g.inbound.use .receive })

def emit (value : Int) (g : Gate) : Except Fault Unit × Gate :=
  match g.outbound.send value with
  | .ok (outbound, _) => (.ok (), { g with outbound })
  | .error why => (.error why, g)

def device : Device Gate :=
  { request, emit }

def use (g : Gate) (u : Use) : Gate :=
  { g with inbound := g.inbound.use u }

end Gate

/-- An engine at its gate, with the steps that are under way. -/
structure Overlap where
  engine : Engine
  gate : Gate
  -- The inputs that steps wait for, longest waiting first.
  asking : List Pending := []
  -- The number of receives whose steps have gone on.
  gone : Nat := 0
  -- The steps that are suspended and wait for nothing.
  busy : List Midway := []
  -- The answers of the steps, oldest answer first.
  answers : List (Except Fault (Option Ending)) := []

namespace Overlap

inductive Move where
  | send (value : Int)
  | close
  -- A step is called.
  | step
  -- The longest waiting step takes what it has been given.
  | take
  -- A step that waits for nothing goes on with its next piece.
  | proceed (i : Nat)
  deriving DecidableEq, Repr

/-- What a move does to the channel before the engine, if it is not the engine's. -/
def Move.use? : Move → Option Use
  | .send value => some (.send value)
  | .close => some .close
  | .step | .take | .proceed _ => none

/-- What others do to the channel before the engine. -/
def Move.uses (moves : List Move) : List Use :=
  moves.filterMap use?

theorem Move.uses_append (moves later : List Move) : uses (moves ++ later) = uses moves ++ uses later :=
  List.filterMap_append

def start (engine : Engine) (source : String) (outbound : Channel Empty) : Overlap :=
  { engine, gate := { inbound := Traffic.start source, outbound } }

/-- What the longest waiting step has been given. Receives are answered in the order of their calls. -/
def letter? (x : Overlap) : Option (Except Fault Int) :=
  (x.gate.inbound.answers[x.gone]?).map Prod.snd

def begun (x : Overlap) : Onset → Overlap
  | .answered answer => { x with answers := x.answers ++ [answer] }
  | .asks pending =>
    { x with gate := (Gate.device.request x.gate).2, asking := x.asking ++ [pending] }
  | .emits value =>
    let (reaction, gate) := Gate.device.emit value.toInt x.gate
    { x with gate, busy := x.busy ++ [.emitted reaction] }
  | .executed result => { x with busy := x.busy ++ [.executed result] }

/-- The engine after a move, if the move is possible. A step is called at any time, and steps that wait
for nothing may go on in any order. -/
def act (x : Overlap) : Move → Option Overlap
  | .send value => some { x with gate := x.gate.use (.send value) }
  | .close => some { x with gate := x.gate.use .close }
  | .step => some (begun { x with engine := x.engine.onset.1 } x.engine.onset.2)
  | .take =>
    match x.asking, x.letter? with
    | pending :: asking, some letter =>
      let (engine, result) := x.engine.accept pending letter
      some { x with engine, asking, gone := x.gone + 1, busy := x.busy ++ [.executed result] }
    | _, _ => none
  | .proceed i =>
    match x.busy[i]? with
    | some (.emitted reaction) =>
      let (engine, result) := x.engine.passOn reaction
      some { x with engine, busy := x.busy.set i (.executed result) }
    | some (.executed result) =>
      some { x with
        engine := x.engine.conclude result
        busy := x.busy.eraseIdx i
        answers := x.answers ++ [result] }
    | none => none

/-- Where an engine is led by a history of moves, each allowed when it is its turn. -/
inductive Reaches (allowed : Overlap → Move → Prop) (x₀ : Overlap) :
    List Move → Overlap → Prop where
  | start : Reaches allowed x₀ [] x₀
  | act {moves : List Move} {x x' : Overlap} {a : Move} (before : Reaches allowed x₀ moves x)
      (fine : allowed x a) (made : x.act a = some x') : Reaches allowed x₀ (moves ++ [a]) x'

/-- No step is called, and none goes on that has waited, while another one is in the middle of its
instruction. Whoever has waited goes on only while the engine still asks for that input. -/
def Timely (x : Overlap) : Move → Prop
  | .step => x.busy = []
  | .take => x.busy = [] ∧ ∀ pending ∈ x.asking.head?, x.engine.Asks pending
  | _ => True

def Anyhow (_ : Overlap) (_ : Move) : Prop :=
  True

/-- A step is called only when all others have been answered. -/
def Apart (x : Overlap) : Move → Prop
  | .step => x.asking = [] ∧ x.busy = []
  | _ => True

end Overlap

/-! ## Steps one by one -/

/-- Where steps lead that are made one by one, each answered before the next. -/
inductive Engine.OneByOne {σ : Type} (d : Device σ) (e₀ : Engine) (s₀ : σ) :
    List (Except Fault (Option Ending)) → Engine → σ → Prop where
  | start : OneByOne d e₀ s₀ [] e₀ s₀
  | step {answers : List (Except Fault (Option Ending))} {e e' : Engine} {s s' : σ}
      {answer : Except Fault (Option Ending)} (before : OneByOne d e₀ s₀ answers e s)
      (made : e.step d s = (e', s', .answered answer)) :
      OneByOne d e₀ s₀ (answers ++ [answer]) e' s'

/-- An engine whose steps are awaited one by one tells about its stop once. -/
theorem Engine.OneByOne.told {σ : Type} {d : Device σ} {e₀ e : Engine} {s₀ s : σ}
    {answers : List (Except Fault (Option Ending))} (h : OneByOne d e₀ s₀ answers e s)
    (hstart : e₀.Told) : e.Told := by
  induction h with
  | start => exact hstart
  | @step answers e e' s s' answer before made ih =>
      have hnext := ih.step d s
      rw [made] at hnext
      exact hnext

/-- The channels before and behind an engine, with the given values still to be received. -/
def Link.holding (source : String) (values : List Int) (closed : Bool) (outbound : Channel Empty) :
    Link :=
  { inbound := { name := source, buffer := values, closed }, outbound }

/-! ## What has been sent by now -/

namespace Use

/-- The values may be all that is sent in the end, and the channel closed in the end or not. -/
structure Begins (uses : List Use) (values : List Int) (closed : Bool) : Prop where
  prefix_values : sent uses <+: values
  done : .close ∈ uses → values = sent uses ∧ closed = true

variable {uses later : List Use} {values : List Int} {closed : Bool} {name : String}

theorem begins_self (uses : List Use) : Begins uses (sent uses) (decide (.close ∈ uses)) :=
  ⟨List.prefix_rfl, fun hclose => ⟨rfl, decide_eq_true hclose⟩⟩

/-- What may still be sent later may also be sent now, so an earlier moment has the same future. -/
theorem Begins.of_append (h : Begins (uses ++ later) values closed) :
    Begins uses values closed where
  prefix_values := by
    have hprefix := h.prefix_values
    rw [sent_append] at hprefix
    exact (List.prefix_append _ _).trans hprefix
  done := by
    intro hclose
    have hdone := h.done (List.mem_append_left _ hclose)
    rw [sent_append, if_pos hclose, List.append_nil] at hdone
    exact hdone

/-- Only the values and the end of a history matter, not when somebody has received. -/
theorem Begins.congr {uses' : List Use} (h : Begins uses values closed)
    (hsent : sent uses' = sent uses) (hclose : .close ∈ uses' ↔ .close ∈ uses) :
    Begins uses' values closed where
  prefix_values := hsent ▸ h.prefix_values
  done := by
    rw [hsent, hclose]
    exact h.done

end Use

theorem Traffic.Accounts.map_answer {t : Traffic} {name : String} {uses : List Use}
    (h : t.Accounts name uses) (i : Nat) : (t.answers[i]?).map Prod.snd = Use.due name uses i := by
  rw [h.answers_eq, List.getElem?_mapIdx, ← Use.getElem?_allDue]
  cases (Use.allDue name uses)[i]? <;> rfl

/-- A receive is given what a request finds that comes when all has been sent. -/
theorem Link.request_holding {uses : List Use} {values : List Int} {closed : Bool} {source : String}
    {i : Nat} {letter : Except Fault Int} (h : Use.Begins uses values closed)
    (hdue : Use.due source uses i = some letter) (outbound : Channel Empty) :
    Link.device.request (holding source (values.drop i) closed outbound) =
      (.ofLetter letter, holding source (values.drop (i + 1)) closed outbound) := by
  unfold Use.due at hdue
  split at hdue
  · cases hdue
  split at hdue
  · rename_i hsent
    cases hdue
    have hlt : i < values.length := Nat.lt_of_lt_of_le hsent h.prefix_values.length_le
    rw [List.drop_eq_getElem_cons hlt, h.prefix_values.getElem hsent]
    rfl
  split at hdue
  · rename_i hserved hclose
    cases hdue
    rcases h.done hclose with ⟨rfl, rfl⟩
    rw [List.drop_eq_nil_of_le (Nat.le_of_not_lt hserved),
      List.drop_eq_nil_of_le (Nat.le_succ_of_le (Nat.le_of_not_lt hserved))]
    rfl
  · cases hdue

/-- Values are emitted through a gate as through a link. -/
theorem Gate.emit_holding (g : Gate) (v : Int) (source : String) (values : List Int)
    (closed : Bool) :
    Link.device.emit v (Link.holding source values closed g.outbound) =
      ((Gate.device.emit v g).1, Link.holding source values closed (Gate.device.emit v g).2.outbound) := by
  simp only [Link.device, Link.emit, Gate.device, Gate.emit, Link.holding]
  cases g.outbound.send v <;> rfl

end WordMachine
