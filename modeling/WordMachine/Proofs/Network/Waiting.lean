import WordMachine.Proofs.Channel.Mailbox
import WordMachine.Proofs.Network.Schedule

/-!
# Networks whose processes wait inside the channels

In a `Network` a process that finds nothing in its channel looks again later. Here it waits there: it
asks, is given a value by whoever sends one or is told of the end by whoever closes the channel, and goes
on with that some time afterwards. A process acts twice for each value it receives, and more may be sent
between the two.

`Network.Patient.act` is one such action, `Network.Mirrors` ties the two kinds of networks together.
`Network.Mirrors.act` says that asking changes nothing that a polling network would show and that every
other action is one of its moves. Hence `Network.waiting_agrees`: whatever order the processes act in,
they come to rest where the polling network does.
-/

namespace WordMachine

/-! ## Engines between mailboxes -/

/-- The mailboxes before and behind an engine. -/
structure Berth where
  inbound : Mailbox
  outbound : Mailbox

namespace Berth

/-- Asks for a value. The engine goes on later, also if there is one already. -/
def request (b : Berth) : Reply × Berth :=
  (.wait, { b with inbound := b.inbound.receive })

def emit (value : Int) (b : Berth) : Except Fault Unit × Berth :=
  let (reaction, outbound) := b.outbound.post value
  (reaction, { b with outbound })

def device : Device Berth :=
  { request, emit }

end Berth

/-- Engines in a row, with a mailbox before each of them and one behind the last. -/
inductive Row.Patient where
  | outlet (mailbox : Mailbox)
  -- A mailbox, the engine it leads into, the step of it that waits if one does, and what comes behind.
  | stage (mailbox : Mailbox) (engine : Engine) (pending? : Option Pending) (rest : Row.Patient)

namespace Row.Patient

def engines : Row.Patient → List Engine
  | outlet _ => []
  | stage _ engine _ rest => engine :: rest.engines

def first : Row.Patient → Mailbox
  | outlet mailbox => mailbox
  | stage mailbox _ _ _ => mailbox

def withFirst (mailbox : Mailbox) : Row.Patient → Row.Patient
  | outlet _ => outlet mailbox
  | stage _ engine pending? rest => stage mailbox engine pending? rest

def last : Row.Patient → Mailbox
  | outlet mailbox => mailbox
  | stage _ _ _ rest => rest.last

def withLast (mailbox : Mailbox) : Row.Patient → Row.Patient
  | outlet _ => outlet mailbox
  | stage first engine pending? rest => stage first engine pending? (rest.withLast mailbox)

/-- How a turn leaves an engine and what is behind it. Whoever stops closes the channel. -/
def enter (mailbox : Mailbox) (engine : Engine) (rest : Row.Patient) :
    Turn (Option Ending) → Row.Patient
  | .waiting pending => stage mailbox engine (some pending) rest
  | .answered _ =>
    match engine.status.stop? with
    | none => stage mailbox engine none rest
    | some _ => stage mailbox engine none (rest.withFirst rest.first.close)

/-- Lets an engine make a step, or go on with the one that waits if that has got an answer. -/
def actStage (mailbox : Mailbox) (engine : Engine) (pending? : Option Pending) (rest : Row.Patient) :
    Option Row.Patient :=
  match pending?, mailbox.letter? with
  | none, _ =>
    match engine.status.stop? with
    | some _ => none
    | none =>
      let (engine, berth, turn) := engine.step Berth.device ⟨mailbox, rest.first⟩
      some (enter berth.inbound engine (rest.withFirst berth.outbound) turn)
  | some pending, some letter =>
    let (engine, turn) := engine.resume pending (.ofLetter letter)
    some (enter mailbox.taken engine rest turn)
  | some _, none => none

def act : Nat → Row.Patient → Option Row.Patient
  | _, outlet _ => none
  | 0, stage mailbox engine pending? rest => actStage mailbox engine pending? rest
  | place + 1, stage mailbox engine pending? rest =>
    (rest.act place).map (stage mailbox engine pending?)

def accept (w : Row.Patient) (δ : Delivery) : Row.Patient :=
  w.withFirst (w.first.accept δ)

/-- The number of engines of which no step waits. -/
def idle : Row.Patient → Nat
  | outlet _ => 0
  | stage _ _ none rest => rest.idle + 1
  | stage _ _ (some _) rest => rest.idle

@[simp] theorem withFirst_first (w : Row.Patient) : w.withFirst w.first = w := by
  cases w <;> rfl

@[simp] theorem idle_accept (w : Row.Patient) (δ : Delivery) : (w.accept δ).idle = w.idle := by
  cases w with
  | outlet b => rfl
  | stage b e pending? rest => cases pending? <;> rfl

@[simp] theorem idle_withLast (b : Mailbox) (w : Row.Patient) : (w.withLast b).idle = w.idle := by
  induction w with
  | outlet b => rfl
  | stage b e pending? rest ih => cases pending? <;> simp [withLast, idle, ih]

/-- An answered turn does to what is behind an engine what a move with the same outcome does. -/
theorem enter_answered (b : Mailbox) (e : Engine) (rest : Row.Patient)
    (answer : Except Fault (Option Ending)) :
    enter b e rest (.answered answer) = stage b e none (rest.accept (e.delivery none)) := by
  unfold enter Engine.delivery
  cases e.status.stop? with
  | none => exact congrArg (stage b e none) (withFirst_first rest).symm
  | some how => rfl

theorem actStage_of_going {e : Engine} (hgoing : e.status.stop? = none) (b : Mailbox)
    (rest : Row.Patient) :
    actStage b e none rest =
      match e.step Berth.device ⟨b, rest.first⟩ with
      | (e', berth, turn) => some (enter berth.inbound e' (rest.withFirst berth.outbound) turn) := by
  simp only [actStage, hgoing]

theorem actStage_of_letter {b : Mailbox} {letter : Except Fault Int} (hletter : b.letter? = some letter)
    (e : Engine) (pending : Pending) (rest : Row.Patient) :
    actStage b e (some pending) rest =
      match (e.resume pending (.ofLetter letter)).1 with
      | e' => some (stage b.taken e' none (rest.accept (e'.delivery none))) := by
  rcases Engine.answered_resume e pending letter with ⟨answer, hanswer⟩
  simp only [actStage, hletter, hanswer, enter_answered]

/-- Sending, and then closing if the engine has stopped, is one delivery. -/
theorem accept_send (w : Row.Patient) (e : Engine) (v : Int) :
    (w.withFirst (w.first.send v)).accept (e.delivery none) = w.accept (e.delivery (some v)) := by
  unfold Engine.delivery
  cases w <;> cases e.status.stop? <;> rfl

end Row.Patient

/-! ## Networks -/

/-- Engines in a row and an observer, who all wait inside the channels. -/
structure Network.Patient where
  feedback : Bool
  row : Row.Patient
  observed : Array Int := #[]
  observing : Bool := true
  -- Whether the observer has asked for a value and not taken it yet.
  asking : Bool := false

namespace Network.Patient

/-- The mailbox of the engine at a place, when the phase and the signal have been sent. -/
def inlet (wiring : Wiring) (place : Nat) (phase : Int) : Mailbox :=
  let fresh : Mailbox := { inbound := { name := Engine.defaultName place } }
  if place = 0 then
    let fed := (fresh.send phase).send wiring.signal
    if wiring.feedback then fed else fed.close
  else fresh.send phase

def startFrom (wiring : Wiring) (place : Nat) : List (Image × Int) → Row.Patient
  | [] => .outlet { inbound := { name := "observer" } }
  | (image, phase) :: rest =>
    .stage (inlet wiring place phase) (launch place image) none (startFrom wiring (place + 1) rest)

def start (wiring : Wiring) (images : List Image) (phases : List Int) : Network.Patient :=
  { feedback := wiring.feedback
    row := startFrom wiring 0 (images.zip phases) }

/-- Lets the observer ask, or take the answer it has got. A value is passed on to the first engine in a
ring; at the end the channel into the first engine is closed. -/
def observe (w : Network.Patient) : Option Network.Patient :=
  match w.observing, w.asking, w.row.last.letter? with
  | false, _, _ => none
  | true, false, _ => some { w with asking := true, row := w.row.withLast w.row.last.receive }
  | true, true, none => none
  | true, true, some (.ok value) =>
    let row := w.row.withLast w.row.last.taken
    let row := if w.feedback then row.withFirst (row.first.send value) else row
    some { w with asking := false, row, observed := w.observed.push value }
  | true, true, some (.error _) =>
    let row := w.row.withLast w.row.last.taken
    some { w with asking := false, observing := false, row := row.withFirst row.first.close }

def act (w : Network.Patient) : Process → Option Network.Patient
  | .observer => w.observe
  | .engine place => (w.row.act place).map fun row => { w with row }

def follow (w : Network.Patient) (history : List Process) : Option Network.Patient :=
  history.foldlM act w

def Stuck (w : Network.Patient) : Prop :=
  ∀ p, w.act p = none

def idle (w : Network.Patient) : Nat :=
  w.row.idle + if w.asking then 0 else 1

end Network.Patient

/-! ## Rows side by side -/

/-- An engine of a network that wants a value has not changed by wanting it. -/
theorem Engine.Launched.eq_of_demand_eq_input {e e₁ : Engine} {pending : Pending} (h : e.Launched)
    (hdemand : e.demand = .input e₁ pending) : e₁ = e := by
  rcases Engine.eq_of_demand_eq_input hdemand with ⟨dest, hgoing, -, rfl, -⟩
  exact h.executing_eq _ hgoing

/-- An engine that wants a value moves only if a poll finds something. -/
theorem Engine.Passes.poll_ne_empty {e e' e₁ : Engine} {inlet inlet' outlet : Channel Empty}
    {δ : Delivery} {pending : Pending} (h : e.Passes inlet outlet e' inlet' δ)
    (hdemand : e.demand = .input e₁ pending) : inlet.poll ≠ .empty := by
  cases h with
  | alone going demand => cases demand.symm.trans hdemand
  | receive going demand poll => simp [poll]
  | ended going demand poll => simp [poll]
  | send going demand opened => cases demand.symm.trans hdemand
  | refused going demand closed => cases demand.symm.trans hdemand

namespace Row

variable {row row' : Row} {w w' : Row.Patient} {asking : Bool} {b : Mailbox} {c : Channel Empty}
  {δ : Delivery} {i : Nat}

/-- A row whose engines wait inside their channels stands to a row whose engines poll. The engines are
the same; the flag tells whether the observer has asked. -/
inductive Mirrors (asking : Bool) : Row → Row.Patient → Prop where
  | outlet {c : Channel Empty} {b : Mailbox} (shows : b.Shows c asking) :
      Mirrors asking (.outlet c) (.outlet b)
  | free {c : Channel Empty} {b : Mailbox} {e : Engine} {rest : Row} {rest' : Row.Patient}
      (shows : b.Shows c false) (behind : Mirrors asking rest rest') :
      Mirrors asking (.stage c e rest) (.stage b e none rest')
  | asked {c : Channel Empty} {b : Mailbox} {e : Engine} {pending : Pending} {rest : Row}
      {rest' : Row.Patient} (shows : b.Shows c true) (demand : e.demand = .input e pending)
      (behind : Mirrors asking rest rest') :
      Mirrors asking (.stage c e rest) (.stage b e (some pending) rest')

theorem Mirrors.first (h : Mirrors asking row w) : ∃ asked, w.first.Shows row.first asked := by
  cases h with
  | outlet shows => exact ⟨_, shows⟩
  | free shows behind => exact ⟨_, shows⟩
  | asked shows demand behind => exact ⟨_, shows⟩

theorem Mirrors.last (h : Mirrors asking row w) : w.last.Shows row.last asking := by
  induction h with
  | outlet shows => exact shows
  | free shows behind ih => exact ih
  | asked shows demand behind ih => exact ih

theorem Mirrors.engines_eq (h : Mirrors asking row w) : w.engines = row.engines := by
  induction h with
  | outlet shows => rfl
  | free shows behind ih => exact congrArg (List.cons _) ih
  | asked shows demand behind ih => exact congrArg (List.cons _) ih

/-- Both rows take what is sent on their first channels. -/
theorem Mirrors.accept (h : Mirrors asking row w) (δ : Delivery) :
    Mirrors asking (row.accept δ) (w.accept δ) := by
  cases h with
  | outlet shows => exact .outlet (shows.accept δ)
  | free shows behind => exact .free (shows.accept δ) behind
  | asked shows demand behind => exact .asked (shows.accept δ) demand behind

/-- The observer's mailbox may be changed together with the last channel. -/
theorem Mirrors.withLast {asked : Bool} (h : Mirrors asking row w) (hb : b.Shows c asked) :
    Mirrors asked (row.withLast c) (w.withLast b) := by
  induction h with
  | outlet shows => exact .outlet hb
  | free shows behind ih => exact .free shows ih
  | asked shows demand behind ih => exact .asked shows demand ih

/-! ## Actions of engines -/

/-- What an action is to the row that polls: no more than that somebody has asked, or a move. -/
inductive Acts (asking : Bool) (i : Nat) (row : Row) (w w' : Row.Patient) : Prop where
  | asks (mirrors : Mirrors asking row w') (fewer : w'.idle + 1 = w.idle)
  | moves {row' : Row} (moves : Moves i row row') (mirrors : Mirrors asking row' w')
      (more : w'.idle ≤ w.idle + 1)

/-- An action farther behind is no concern of the stages before it. -/
theorem Acts.behind {e : Engine} {pending? : Option Pending} (h : Acts asking i row w w')
    (hcons : ∀ row w, Mirrors asking row w → Mirrors asking (.stage c e row) (.stage b e pending? w)) :
    Acts asking (i + 1) (.stage c e row) (.stage b e pending? w) (.stage b e pending? w') := by
  cases h with
  | asks mirrors fewer =>
      refine .asks (hcons _ _ mirrors) ?_
      cases pending? with
      | none => exact congrArg Nat.succ fewer
      | some pending => exact fewer
  | moves moves mirrors more =>
      refine .moves (.behind moves) (hcons _ _ mirrors) ?_
      cases pending? with
      | none => exact Nat.succ_le_succ more
      | some pending => exact more

/-- An engine that has acted as the one that polls has moved is between two steps again. -/
theorem acts_of_passes {e e' : Engine} {b b' : Mailbox} {c c' : Channel Empty} {pending? : Option Pending}
    {rest : Row} {rest' : Row.Patient} (hpasses : e.Passes c rest.first e' c' δ)
    (hshows : b'.Shows c' false) (hbehind : Mirrors asking rest rest') :
    Acts asking 0 (.stage c e rest) (.stage b e pending? rest') (.stage b' e' none (rest'.accept δ)) := by
  refine .moves (.here hpasses) (.free hshows (hbehind.accept δ)) ?_
  cases pending? <;> simp [Row.Patient.idle]

/-- A step either asks or is a move of the engine that polls. -/
theorem acts_step {e : Engine} {rest : Row} {rest' : Row.Patient} (he : e.Launched)
    (hshows : b.Shows c false) (hbehind : Mirrors asking rest rest')
    (hact : Row.Patient.actStage b e none rest' = some w') :
    Acts asking 0 (.stage c e rest) (.stage b e none rest') w' := by
  cases hgoing : e.status.stop? with
  | some how =>
      simp only [Row.Patient.actStage, hgoing] at hact
      cases hact
  | none =>
      rw [Row.Patient.actStage_of_going hgoing, Engine.step_eq_meet] at hact
      cases hdemand : e.demand with
      | nothing e' answer =>
          simp only [hdemand, Demand.meet, Row.Patient.enter_answered,
            Row.Patient.withFirst_first] at hact
          cases hact
          exact acts_of_passes (.alone hgoing hdemand) hshows hbehind
      | input e₁ pending =>
          cases he.eq_of_demand_eq_input hdemand
          simp only [hdemand, Demand.meet, Berth.device, Berth.request, Engine.resume,
            Row.Patient.enter, Row.Patient.withFirst_first] at hact
          cases hact
          exact .asks (.asked hshows.receive hdemand hbehind) rfl
      | output e₁ word =>
          rcases hbehind.first with ⟨asked, hfirst⟩
          cases hclosed : rest.first.closed with
          | true =>
              simp only [hdemand, Demand.meet, Berth.device, Berth.emit,
                hfirst.post_of_closed hclosed, Engine.settle, Row.Patient.enter_answered,
                Row.Patient.withFirst_first] at hact
              cases hact
              exact acts_of_passes (.refused hgoing hdemand hclosed) hshows hbehind
          | false =>
              rcases Engine.answered_settle e₁ (.ok ()) with ⟨answer, hanswer⟩
              simp only [hdemand, Demand.meet, Berth.device, Berth.emit,
                hfirst.post_of_open hclosed, hanswer, Row.Patient.enter_answered,
                Row.Patient.accept_send] at hact
              cases hact
              exact acts_of_passes (.send hgoing hdemand hclosed) hshows hbehind

/-- Going on with what has been given is a move of the engine that polls. -/
theorem acts_goOn {e : Engine} {pending : Pending} {rest : Row} {rest' : Row.Patient}
    (hshows : b.Shows c true) (hdemand : e.demand = .input e pending)
    (hbehind : Mirrors asking rest rest')
    (hact : Row.Patient.actStage b e (some pending) rest' = some w') :
    Acts asking 0 (.stage c e rest) (.stage b e (some pending) rest') w' := by
  have hgoing := (Engine.eq_of_demand_eq_input hdemand).choose_spec.1
  cases hletter : b.letter? with
  | none =>
      simp only [Row.Patient.actStage, hletter] at hact
      cases hact
  | some letter =>
      rw [Row.Patient.actStage_of_letter hletter] at hact
      cases hact
      rcases hshows.take hletter with ⟨v, c', rfl, hpoll, hrest⟩ | ⟨source, rfl, hpoll, hsame⟩
      · exact acts_of_passes (.receive hgoing hdemand hpoll) hrest hbehind
      · exact acts_of_passes (.ended hgoing hdemand hpoll) hsame hbehind

/-- Step lemma of a row. Asking is no move of the row that polls; a send or a taken answer is one. -/
theorem Mirrors.act (h : Mirrors asking row w) (hlaunched : ∀ e ∈ row.engines, Engine.Launched e)
    (hact : w.act i = some w') : Acts asking i row w w' := by
  induction h generalizing i w' with
  | outlet shows => cases i <;> cases hact
  | @free c b e rest rest' shows behind ih =>
      cases i with
      | zero => exact acts_step (hlaunched e List.mem_cons_self) shows behind hact
      | succ i =>
          rcases Option.map_eq_some_iff.mp hact with ⟨next, hnext, rfl⟩
          exact (ih (fun a ha => hlaunched a (List.mem_cons_of_mem e ha)) hnext).behind
            fun _ _ hrest => .free shows hrest
  | @asked c b e pending rest rest' shows demand behind ih =>
      cases i with
      | zero => exact acts_goOn shows demand behind hact
      | succ i =>
          rcases Option.map_eq_some_iff.mp hact with ⟨next, hnext, rfl⟩
          exact (ih (fun a ha => hlaunched a (List.mem_cons_of_mem e ha)) hnext).behind
            fun _ _ hrest => .asked shows demand hrest

/-- Where the row that polls can move, the other one can act. -/
theorem Mirrors.exists_act (h : Mirrors asking row w) (hmoves : Moves i row row') :
    ∃ w', w.act i = some w' := by
  induction hmoves generalizing w with
  | @here e e' inlet inlet' rest δ passes =>
      cases h with
      | @free _ b _ _ rest' shows behind =>
          exact ⟨_, Row.Patient.actStage_of_going passes.going b rest'⟩
      | @asked _ b _ pending _ rest' shows demand behind =>
          cases hletter : b.letter? with
          | some letter =>
              exact ⟨_, Row.Patient.actStage_of_letter hletter e pending rest'⟩
          | none =>
              exact absurd (shows.holds.poll_of_unanswered shows.closed_eq.symm hletter)
                (passes.poll_ne_empty demand)
  | behind moves ih =>
      cases h with
      | free shows behind =>
          rcases ih behind with ⟨next, hnext⟩
          exact ⟨_, congrArg (Option.map _) hnext⟩
      | asked shows demand behind =>
          rcases ih behind with ⟨next, hnext⟩
          exact ⟨_, congrArg (Option.map _) hnext⟩

@[simp] theorem withLast_last (row : Row) : row.withLast row.last = row := by
  induction row with
  | outlet c => rfl
  | stage inlet e rest ih => exact congrArg (stage inlet e) ih

end Row

/-! ## Networks side by side -/

namespace Network

variable {n n' : Network} {w w' : Network.Patient} {p : Process} {order history : List Process}

/-- A network whose processes wait inside the channels stands to a network whose processes poll. -/
structure Mirrors (n : Network) (w : Network.Patient) : Prop where
  feedback_eq : w.feedback = n.feedback
  observed_eq : w.observed = n.observed
  observing_eq : w.observing = n.observing
  row : n.row.Mirrors w.asking w.row

theorem Mirrors.engines_eq (h : n.Mirrors w) : w.row.engines = n.row.engines :=
  Row.Mirrors.engines_eq h.row

theorem shows_inlet (wiring : Wiring) (place : Nat) (phase : Int) :
    (Patient.inlet wiring place phase).Shows (inlet wiring place phase) false := by
  unfold Patient.inlet inlet
  by_cases hplace : place = 0
  · cases hfeedback : wiring.feedback <;> simp [hplace] <;> exact ⟨rfl, rfl, .free rfl rfl⟩
  · simp [hplace]
    exact ⟨rfl, rfl, .free rfl rfl⟩

theorem mirrors_startFrom (wiring : Wiring) (place : Nat) (programs : List (Image × Int)) :
    (startFrom wiring place programs).Mirrors false (Patient.startFrom wiring place programs) := by
  induction programs generalizing place with
  | nil => exact .outlet ⟨rfl, rfl, .free rfl rfl⟩
  | cons program programs ih => exact .free (shows_inlet wiring place program.2) (ih (place + 1))

/-- The phase and the signal are in the mailboxes before anybody asks. -/
theorem mirrors_start (wiring : Wiring) (images : List Image) (phases : List Int) :
    (start wiring images phases).Mirrors (Patient.start wiring images phases) :=
  ⟨rfl, rfl, rfl, mirrors_startFrom wiring 0 _⟩

inductive Acts (n : Network) (w : Network.Patient) (p : Process) (w' : Network.Patient) : Prop where
  | asks (mirrors : n.Mirrors w') (fewer : w'.idle + 1 = w.idle)
  | moves {n' : Network} (moves : n.Moves p n') (mirrors : n'.Mirrors w') (more : w'.idle ≤ w.idle + 1)

/-- What the observer passes on goes to the first mailbox as it goes to the first channel. -/
theorem accept_echo (n : Network) (row : Row.Patient) (v : Int) :
    row.accept (n.echo v) = if n.feedback then row.withFirst (row.first.send v) else row := by
  unfold echo
  cases n.feedback with
  | true => rfl
  | false => exact row.withFirst_first

/-- Step lemma of the observer, who asks and takes answers like an engine. -/
theorem Mirrors.observe (h : n.Mirrors w) (hact : w.observe = some w') : n.Acts w .observer w' := by
  rcases n with ⟨ring, polled, seen, expecting⟩
  rcases w with ⟨feedback, row, observed, observing, asking⟩
  rcases h with ⟨hfeedback, hobserved, hobserving, hrow⟩
  cases hfeedback
  cases hobserved
  cases hobserving
  have hlast : row.last.Shows polled.last asking := hrow.last
  unfold Patient.observe at hact
  cases expecting with
  | false => cases hact
  | true =>
      cases asking with
      | false =>
          cases hact
          have hasked := hrow.withLast hlast.receive
          rw [Row.withLast_last] at hasked
          exact .asks ⟨rfl, rfl, rfl, hasked⟩ (by simp [Patient.idle])
      | true =>
          cases hletter : row.last.letter? with
          | none =>
              simp only [hletter] at hact
              cases hact
          | some letter =>
              rcases hlast.take hletter with
                ⟨v, c, rfl, hpoll, hrest⟩ | ⟨source, rfl, hpoll, hsame⟩
              · simp only [hletter] at hact
                cases hact
                have hpassed := (hrow.withLast hrest).accept (echo ⟨ring, polled, seen, true⟩ v)
                have hidle : ((row.withLast row.last.taken).accept
                    (echo ⟨ring, polled, seen, true⟩ v)).idle ≤ row.idle := by simp
                rw [accept_echo] at hpassed hidle
                exact .moves (.receive rfl hpoll) ⟨rfl, rfl, rfl, hpassed⟩ (Nat.succ_le_succ hidle)
              · simp only [hletter] at hact
                cases hact
                have hended := (hrow.withLast hsame).accept { final := true }
                have hidle : ((row.withLast row.last.taken).accept { final := true }).idle ≤ row.idle := by
                  simp
                rw [Row.withLast_last] at hended
                exact .moves (.ended rfl hpoll) ⟨rfl, rfl, rfl, hended⟩ (Nat.succ_le_succ hidle)

theorem Mirrors.act (h : n.Mirrors w) (hlaunched : n.Launched) (hact : w.act p = some w') :
    n.Acts w p w' := by
  cases p with
  | observer => exact h.observe hact
  | engine place =>
      rcases h with ⟨hfeedback, hobserved, hobserving, hrow⟩
      rcases Option.map_eq_some_iff.mp hact with ⟨row, hrowact, rfl⟩
      cases hrow.act hlaunched hrowact with
      | asks mirrors fewer =>
          refine .asks ⟨hfeedback, hobserved, hobserving, mirrors⟩ ?_
          simp only [Patient.idle]
          omega
      | moves moves mirrors more =>
          refine .moves (.engine moves) ⟨hfeedback, hobserved, hobserving, mirrors⟩ ?_
          simp only [Patient.idle]
          omega

/-- The observer can act unless it waits for what a poll would not find. -/
theorem Mirrors.exists_observe (h : n.Mirrors w) (hobserving : n.observing = true)
    (hpoll : n.row.last.poll ≠ .empty) : ∃ w', w.observe = some w' := by
  have hobserving' : w.observing = true := h.observing_eq.trans hobserving
  have hlast := Row.Mirrors.last h.row
  refine Option.isSome_iff_exists.mp ?_
  unfold Patient.observe
  rw [hobserving']
  cases hasking : w.asking with
  | false => rfl
  | true =>
      rw [hasking] at hlast
      cases hletter : w.row.last.letter? with
      | none => exact absurd (hlast.holds.poll_of_unanswered hlast.closed_eq.symm hletter) hpoll
      | some letter => cases letter <;> rfl

/-- Where the network that polls can move, the other one can act. -/
theorem Mirrors.exists_act (h : n.Mirrors w) (hmoves : n.Moves p n') : ∃ w', w.act p = some w' := by
  cases hmoves with
  | engine moves =>
      rcases h.row.exists_act moves with ⟨row, hrow⟩
      exact ⟨_, congrArg (Option.map _) hrow⟩
  | receive observing poll => exact h.exists_observe observing (by simp [poll])
  | ended observing poll => exact h.exists_observe observing (by simp [poll])

/-- When everybody waits inside the channels, polling finds nothing either. -/
theorem Mirrors.stuck (h : n.Mirrors w) (hstuck : w.Stuck) : n.Stuck := by
  intro p
  cases hmove : n.move p with
  | none => rfl
  | some n' =>
      rcases h.exists_act (moves_of_move hmove) with ⟨w', hact⟩
      cases (hstuck p).symm.trans hact

/-! ## Whole histories -/

/-- Every history of actions is an order of moves of the network that polls, with some asking in between:
once before each move at most, and once more for each process. -/
theorem Mirrors.follow (h : n.Mirrors w) (hlaunched : n.Launched)
    (hfollow : w.follow history = some w') :
    ∃ order n', order.Sublist history ∧ n.follow order = some n' ∧ n'.Mirrors w' ∧ n'.Launched ∧
      history.length + w'.idle ≤ 2 * order.length + w.idle := by
  induction history generalizing n w with
  | nil =>
      cases hfollow
      exact ⟨[], n, .slnil, rfl, h, hlaunched, by simp⟩
  | cons p history ih =>
      simp only [Patient.follow, List.foldlM_cons] at hfollow
      rcases Option.bind_eq_some_iff.mp hfollow with ⟨m, hact, hrest⟩
      cases h.act hlaunched hact with
      | asks mirrors fewer =>
          rcases ih mirrors hlaunched hrest with
            ⟨order, n', hsub, horder, hmirrors, hlaunched', hlength⟩
          refine ⟨order, n', hsub.cons p, horder, hmirrors, hlaunched', ?_⟩
          simp only [List.length_cons]
          omega
      | moves moves mirrors more =>
          rcases ih mirrors (hlaunched.of_moves moves) hrest with
            ⟨order, n', hsub, horder, hmirrors, hlaunched', hlength⟩
          have hmoved : n.follow (p :: order) = some n' := (follow_cons moves).trans horder
          refine ⟨p :: order, n', hsub.cons_cons p, hmoved, hmirrors, hlaunched', ?_⟩
          simp only [List.length_cons]
          omega

/-- If the network that polls comes to rest, then so does the other one, and they still stand to each
other. -/
theorem Mirrors.settles {n n' : Network} {w : Network.Patient} {order : List Process}
    (h : n.Mirrors w) (hlaunched : n.Launched) (hstuck : n'.Stuck) (hfollow : n.follow order = some n') :
    ∃ rest w', w.follow rest = some w' ∧ w'.Stuck ∧ n'.Mirrors w' := by
  by_cases hw : w.Stuck
  · rcases (h.stuck hw).eq_nil hfollow with ⟨rfl, rfl⟩
    exact ⟨[], w, rfl, hw, h⟩
  · rcases Classical.not_forall.mp hw with ⟨p, hp⟩
    rcases Option.ne_none_iff_exists'.mp hp with ⟨m, hact⟩
    -- A move shortens the order that is left, and asking leaves fewer processes that could ask.
    have hcons : ∀ {rest w'}, m.follow rest = some w' → w.follow (p :: rest) = some w' := by
      intro rest w' hrest
      simp only [Patient.follow, List.foldlM_cons, hact]
      exact hrest
    cases h.act hlaunched hact with
    | asks mirrors fewer =>
        have hfewer : m.idle < w.idle := by omega
        rcases mirrors.settles hlaunched hstuck hfollow with ⟨rest, w', hrest, hstuck', hmirrors⟩
        exact ⟨p :: rest, w', hcons hrest, hstuck', hmirrors⟩
    | moves moves mirrors more =>
        rcases follow_of_moves hstuck moves hfollow with ⟨later, hperm, hlater⟩
        have hshorter : later.length < order.length := by
          rw [← hperm.length_eq]
          exact Nat.lt_succ_self _
        rcases mirrors.settles (hlaunched.of_moves moves) hstuck hlater with
          ⟨rest, w', hrest, hstuck', hmirrors⟩
        exact ⟨p :: rest, w', hcons hrest, hstuck', hmirrors⟩
termination_by (order.length, w.idle)

theorem idle_startFrom (wiring : Wiring) (place : Nat) (programs : List (Image × Int)) :
    (Patient.startFrom wiring place programs).idle =
      (startFrom wiring place programs).engines.length := by
  induction programs generalizing place with
  | nil => rfl
  | cons program programs ih => exact congrArg Nat.succ (ih (place + 1))

/-- Waiting inside the channels makes no difference. Whatever the processes of a network do that wait
there, the network that polls can make moves to where they are: with the same engines and the same values
observed. If they cannot do anything any more, neither can the network that polls, whose verdict `run`
has. And if the network that polls comes to rest, then the other one does so as well, in every order and
in the same state: each process asks at most once for each move, and once more at the end. -/
theorem waiting_agrees (wiring : Wiring) (images : List Image) (phases : List Int)
    (hphases : phases ≠ []) (hlength : images.length = phases.length) :
    (∀ history w, (Patient.start wiring images phases).follow history = some w →
      ∃ order n, order.Sublist history ∧ (start wiring images phases).follow order = some n ∧
        n.Mirrors w ∧
        (w.Stuck → n.Stuck ∧
          ∃ fuel, ∀ more, run (fuel + more) wiring images phases = some n.verdict)) ∧
    ∀ order n, (start wiring images phases).follow order = some n → n.Stuck →
      ∀ history w, (Patient.start wiring images phases).follow history = some w →
        history.length ≤ 2 * order.length + (start wiring images phases).processes.length ∧
        ∃ rest w', w.follow rest = some w' ∧ w'.Stuck ∧ n.Mirrors w' := by
  have hstart := mirrors_start wiring images phases
  have hlaunched := launched_start wiring images phases
  refine ⟨?_, ?_⟩
  · intro history w hhistory
    rcases hstart.follow hlaunched hhistory with ⟨order, n, hsub, horder, hmirrors, -, -⟩
    refine ⟨order, n, hsub, horder, hmirrors, ?_⟩
    intro hstuck
    exact ⟨hmirrors.stuck hstuck, run_eventually hphases hlength horder (hmirrors.stuck hstuck)⟩
  · intro order n horder hstuck history w hhistory
    rcases hstart.follow hlaunched hhistory with ⟨begun, m, -, hbegun, hmirrors, hlaunched', hbound⟩
    rcases follow_stuck hstuck horder hbegun with ⟨later, hperm, hlater⟩
    refine ⟨?_, hmirrors.settles hlaunched' hstuck hlater⟩
    have hidle : (Patient.start wiring images phases).idle =
        (start wiring images phases).processes.length := by
      simp [Patient.start, Patient.idle, idle_startFrom, processes, start]
    have hbegun : begun.length ≤ order.length := by
      rw [← hperm.length_eq, List.length_append]
      exact Nat.le_add_right _ _
    omega

/-- An observer that asks before there is anything, is handed a value, and is told of the end when it has
asked again. -/
example :
    ((Patient.start {} [Image.ofIntegers [3, 5, 4, 5, 99]] [7]).follow
      [.observer, .engine 0, .engine 0, .engine 0, .observer, .observer, .engine 0, .observer]).map
        (fun w => (w.observed, w.observing)) = some (#[7], false) := rfl

end Network

end WordMachine
