import WordMachine.Proofs.Network.Deadlock
import WordMachine.Proofs.Network.Kahn

/-!
# Chains and rings

A ring is a chain whose first engine gets more to read: behind the values of the chain come those that
the observer passes on, and the end of the stream comes later. As long as the first engine of the
chain does not find that end, it cannot tell the difference. Then every move of the chain is a move of
the ring (`Network.Moves.widen`), and an order of moves that brings the chain to its end brings the
ring to the same end (`Network.follow_widen`).
-/

namespace WordMachine

/-! ## More to read -/

namespace Channel

variable {c wide : Channel Empty}

/-- The wider channel holds more values behind those of the other one. -/
def Widens (c wide : Channel Empty) : Prop :=
  ∃ more, wide.buffer = c.buffer ++ more

theorem Widens.accept (δ : Delivery) : c.Widens wide → c.Widens (wide.accept δ) := by
  rintro ⟨more, hbuffer⟩
  refine ⟨more ++ if wide.closed then [] else δ.value?.toList, ?_⟩
  simp only [Channel.accept, hbuffer, List.append_assoc]

/-- Closing a channel adds no value to it. -/
theorem Widens.accept_final : c.Widens wide → (c.accept { final := true }).Widens wide := by
  rintro ⟨more, hbuffer⟩
  refine ⟨more, ?_⟩
  rw [buffer_accept fun _ => rfl, hbuffer]
  simp

end Channel

namespace Engine

variable {e e' : Engine} {inlet inlet' outlet wide : Channel Empty} {δ : Delivery}

/-- An engine that does not find the end of its input makes the same move if there is more to read. -/
theorem Passes.widen : e.Passes inlet outlet e' inlet' δ → e'.status ≠ .ended →
    inlet.Widens wide → ∃ wide', e.Passes wide outlet e' wide' δ ∧ inlet'.Widens wide' := by
  intro h hdry hwide
  cases h with
  | alone going demand => exact ⟨wide, .alone going demand, hwide⟩
  | send going demand opened => exact ⟨wide, .send going demand opened, hwide⟩
  | refused going demand closed => exact ⟨wide, .refused going demand closed, hwide⟩
  | ended going demand poll => exact absurd rfl hdry
  | @receive e₁ pending v rest going demand poll =>
      rcases hwide with ⟨more, hbuffer⟩
      rcases Channel.poll_eq_value_iff.mp poll with ⟨later, hinlet, rfl⟩
      have hpoll : wide.poll = .value v { wide with buffer := later ++ more } :=
        Channel.poll_eq_value_iff.mpr ⟨later ++ more, by simp [hbuffer, hinlet], rfl⟩
      exact ⟨_, .receive going demand hpoll, more, rfl⟩

end Engine

/-! ## Rows -/

namespace Row

variable {row row' wide : Row} {e : Engine} {c : Channel Empty} {v : Int} {i : Nat}

inductive Widens : Row → Row → Prop where
  | stage {inlet wide : Channel Empty} {e : Engine} {rest : Row} (inlets : inlet.Widens wide) :
      Widens (.stage inlet e rest) (.stage wide e rest)

theorem Widens.engines_eq : row.Widens wide → wide.engines = row.engines := by
  intro h
  cases h with
  | stage inlets => rfl

theorem Widens.last_eq : row.Widens wide → wide.last = row.last := by
  intro h
  cases h with
  | stage inlets => rfl

theorem Widens.withLast (c : Channel Empty) : row.Widens wide →
    (row.withLast c).Widens (wide.withLast c) := by
  intro h
  cases h with
  | stage inlets => exact .stage inlets

theorem Widens.accept (δ : Delivery) : row.Widens wide → row.Widens (wide.accept δ) := by
  intro h
  cases h with
  | stage inlets => exact .stage (inlets.accept δ)

theorem Widens.accept_final : row.Widens wide → (row.accept { final := true }).Widens wide := by
  intro h
  cases h with
  | stage inlets => exact .stage inlets.accept_final

/-- The first engine has not found the end of its input. -/
def Supplied (row : Row) : Prop :=
  ∀ e, row.engines[0]? = some e → e.status ≠ .ended

/-- An engine makes the same move in the wider row. -/
theorem Moves.widen : Moves i row row' → row'.Supplied → row.Widens wide →
    ∃ wide', Moves i wide wide' ∧ row'.Widens wide' := by
  intro h hsupplied hwide
  cases hwide with
  | @stage inlet inlet₁ e rest inlets =>
      cases h with
      | behind moves => exact ⟨_, .behind moves, .stage inlets⟩
      | here passes =>
          rcases passes.widen (hsupplied _ rfl) inlets with ⟨inlet₂, hpasses, hwide⟩
          exact ⟨_, .here hpasses, .stage hwide⟩

end Row

/-! ## Networks -/

namespace Network

variable {n n' m m' : Network} {p : Process} {order : List Process} {e : Engine} {signal : Int}
  {images : List Image} {phases : List Int} {i : Nat}

/-- A chain, and a network that is the same but for more values for the first engine. -/
structure Widens (n m : Network) : Prop where
  chain : n.feedback = false
  row : n.row.Widens m.row
  observed_eq : m.observed = n.observed
  observing_eq : m.observing = n.observing

/-- A process makes the same move in the wider network. -/
theorem Moves.widen : n.Moves p n' → n'.row.Supplied → n.Widens m →
    ∃ m', m.Moves p m' ∧ n'.Widens m' := by
  intro h hsupplied hwide
  rcases m with ⟨feedback, wide, observed, observing⟩
  rcases hwide with ⟨hchain, hrow, rfl, rfl⟩
  cases h with
  | engine moves =>
      rcases moves.widen hsupplied hrow with ⟨wide', hmoves, hrow'⟩
      exact ⟨_, .engine hmoves, hchain, hrow', rfl, rfl⟩
  | @receive v c hobserving poll =>
      have hecho : n.echo v = {} := by simp [echo, hchain]
      have hpoll : wide.last.poll = .value v c := by rw [hrow.last_eq, poll]
      refine ⟨_, .receive hobserving hpoll, hchain, ?_, rfl, rfl⟩
      simpa only [hecho, Row.accept_nothing] using (hrow.withLast c).accept _
  | ended hobserving poll =>
      have hpoll : wide.last.poll = .ended := by rw [hrow.last_eq, poll]
      exact ⟨_, .ended hobserving hpoll, hchain, (hrow.accept _).accept_final, rfl, rfl⟩

/-- An engine that has stopped stays as it is, whatever moves are made. -/
theorem getElem?_of_follow (hfollow : n.follow order = some n') (he : n.row.engines[i]? = some e)
    (hstop : e.status.stop?.isSome = true) : n'.row.engines[i]? = some e :=
  follow_invariant (fun n => n.row.engines[i]? = some e)
    (fun _ _ _ he hmoves => hmoves.getElem?_of_stopped he hstop) he hfollow

/-- Every order of moves is one of the wider network as well, if the first engine has not found the end
of its input when all moves are made. -/
theorem follow_widen : n.follow order = some n' → n'.row.Supplied → n.Widens m →
    ∃ m', m.follow order = some m' ∧ n'.Widens m' := by
  intro hfollow hsupplied hwide
  induction order generalizing n m with
  | nil =>
      cases hfollow
      exact ⟨m, rfl, hwide⟩
  | cons p order ih =>
      rcases exists_moves_of_follow_cons hfollow with ⟨n₁, hmoves, hrest⟩
      -- Had the engine found the end by this move already, it would still be so.
      have hsupplied₁ : n₁.row.Supplied := by
        intro e he hended
        have hlater := getElem?_of_follow hrest he (by rw [hended]; rfl)
        exact hsupplied e hlater hended
      rcases hmoves.widen hsupplied₁ hwide with ⟨m₁, hmoves', hwide₁⟩
      rcases ih hrest hwide₁ with ⟨m', hfollow', hwide'⟩
      exact ⟨m', (follow_cons hmoves').trans hfollow', hwide'⟩

/-- Behind the first engine it does not matter how the network is wired. -/
theorem startFrom_succ (wiring wiring' : Wiring) (place : Nat) (programs : List (Image × Int)) :
    startFrom wiring (place + 1) programs = startFrom wiring' (place + 1) programs := by
  induction programs generalizing place with
  | nil => rfl
  | cons program programs ih =>
      simp only [startFrom, ih (place + 1)]
      rfl

theorem widens_start (signal : Int) (hphases : phases ≠ []) (hlength : images.length = phases.length) :
    (start { signal } images phases).Widens (start { feedback := true, signal } images phases) := by
  refine ⟨rfl, ?_, rfl, rfl⟩
  cases phases with
  | nil => exact absurd rfl hphases
  | cons phase phases =>
      cases images with
      | nil => cases hlength
      | cons image images =>
          have hrest := startFrom_succ { feedback := true, signal } { signal } 0 (images.zip phases)
          simp only [start, List.zip_cons_cons, startFrom, hrest]
          exact .stage ⟨[], (List.append_nil _).symm⟩

theorem Widens.isOver_eq (h : n.Widens m) : m.isOver = n.isOver := by
  rw [isOver, isOver, h.observing_eq, h.row.engines_eq]

theorem Widens.result_eq (h : n.Widens m) : m.result = n.result := by
  rw [result, result, h.observed_eq, h.row.engines_eq]

/-- Nothing moves in a network that is over. -/
theorem stuck_of_isOver (h : n.isOver = true) : n.Stuck := by
  rcases isOver_iff.mp h with ⟨hfinished, hstopped⟩
  intro p
  cases hmove : n.move p with
  | none => rfl
  | some n' =>
      cases moves_of_move hmove with
      | engine moves =>
          rcases moves.engines_eq with ⟨e, e', he, ⟨_, _, _, _, hpasses⟩, -⟩
          have hstop := hstopped e (List.mem_of_getElem? he)
          rw [hpasses.going] at hstop
          cases hstop
      | receive observing poll =>
          rw [hfinished] at observing
          cases observing
      | ended observing poll =>
          rw [hfinished] at observing
          cases observing

/-- Let a chain be over, however its processes have moved to get there, and let its first engine have
stopped otherwise than at the end of its input. Then the ring of the same programs with the same
phases and signal is over after the same moves: its engines are in the same states, its observer has
seen the same values, and it has the same result. It cannot miss that end: whatever moves it has made,
it gets there by further moves, and only there nothing can move. So it never deadlocks, and `run`
comes to that result. -/
theorem ring_agrees (hphases : phases ≠ []) (hlength : images.length = phases.length)
    (hfollow : (start { signal } images phases).follow order = some n) (hover : n.isOver = true)
    (hfirst : n.row.engines[0]? = some e) (hdry : e.status ≠ .ended) :
    ∃ m, (start { feedback := true, signal } images phases).follow order = some m ∧
      m.isOver = true ∧ m.row.engines = n.row.engines ∧ m.observed = n.observed ∧
      m.result = n.result ∧
      (∀ begun k, (start { feedback := true, signal } images phases).follow begun = some k →
        (∃ rest, k.follow rest = some m) ∧ (k.Stuck → k = m)) ∧
      (∃ fuel, ∀ more, run (fuel + more) { signal } images phases = some (.finished n.result) ∧
        run (fuel + more) { feedback := true, signal } images phases = some (.finished n.result)) ∧
      ∀ fuel verdict, run fuel { feedback := true, signal } images phases = some verdict →
        verdict = .finished n.result := by
  have hsupplied : n.row.Supplied := by
    intro a ha
    rw [hfirst] at ha
    cases ha
    exact hdry
  rcases follow_widen hfollow hsupplied (widens_start signal hphases hlength) with ⟨m, hring, hwide⟩
  have hover' : m.isOver = true := hwide.isOver_eq.trans hover
  have hstuck := stuck_of_isOver hover'
  have hverdict : m.verdict = .finished n.result := by
    rw [verdict_of_isOver hover', hwide.result_eq]
  rcases run_eventually hphases hlength hfollow (stuck_of_isOver hover) with ⟨fuel, hchain⟩
  rcases run_eventually hphases hlength hring hstuck with ⟨fuel', hrun⟩
  rw [verdict_of_isOver hover] at hchain
  rw [hverdict] at hrun
  refine ⟨m, hring, hover', hwide.row.engines_eq, hwide.observed_eq, hwide.result_eq, ?_, ?_, ?_⟩
  · intro begun k hbegun
    refine ⟨?_, fun hk => (stuck_unique hstuck hring hk hbegun).1⟩
    rcases follow_stuck hstuck hring hbegun with ⟨rest, -, hrest⟩
    exact ⟨rest, hrest⟩
  · refine ⟨fuel + fuel', fun more => ⟨?_, ?_⟩⟩
    · rw [Nat.add_assoc]
      exact hchain _
    · rw [Nat.add_comm fuel, Nat.add_assoc]
      exact hrun _
  · intro fuel verdict hverdict'
    rcases follow_of_run hphases hlength hverdict' with ⟨begun, k, hbegun, hk, rfl⟩
    rw [(stuck_unique hstuck hring hk hbegun).1, hverdict]

/-- A ring of two engines, each of which passes one value on. What comes back to the first one is not
read any more. -/
theorem ring_agrees_pair :
    ∃ n, (start { signal := 7 } (List.replicate 2 (Image.ofIntegers [3, 9, 3, 9, 4, 9, 99])) [5, 6]).follow
        (List.replicate 4 (.engine 0) ++ List.replicate 4 (.engine 1) ++
          List.replicate 2 .observer) = some n ∧
      n.result = .ok ⟨7, [7], [⟨.halt, 4⟩, ⟨.halt, 4⟩]⟩ ∧
      ∃ fuel, run fuel { feedback := true, signal := 7 }
        (List.replicate 2 (Image.ofIntegers [3, 9, 3, 9, 4, 9, 99])) [5, 6] = some (.finished n.result) := by
  have hend : ∃ n, (start { signal := 7 }
        (List.replicate 2 (Image.ofIntegers [3, 9, 3, 9, 4, 9, 99])) [5, 6]).follow
        (List.replicate 4 (.engine 0) ++ List.replicate 4 (.engine 1) ++
          List.replicate 2 .observer) = some n ∧
      n.result = .ok ⟨7, [7], [⟨.halt, 4⟩, ⟨.halt, 4⟩]⟩ ∧ n.isOver = true ∧
      ∃ e, n.row.engines[0]? = some e ∧ e.status = .halted :=
    ⟨_, rfl, rfl, rfl, _, rfl, rfl⟩
  rcases hend with ⟨n, hfollow, hresult, hover, e, he, hhalted⟩
  refine ⟨n, hfollow, hresult, ?_⟩
  have hdry : e.status ≠ .ended := by
    rw [hhalted]
    exact Status.noConfusion
  rcases ring_agrees (List.cons_ne_nil 5 [6]) rfl hfollow hover he hdry with
    ⟨m, -, -, -, -, -, -, ⟨fuel, hrun⟩, -⟩
  exact ⟨fuel, (hrun 0).2⟩

end Network

end WordMachine
