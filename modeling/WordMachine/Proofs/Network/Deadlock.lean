import WordMachine.Proofs.Network.Closing
import WordMachine.Proofs.Network.Schedule

/-!
# Networks in which nothing can move

An engine that cannot move has stopped or waits on an empty open channel. A closed channel therefore
stops the engine behind it, which closes the next channel, and so on to the end of the row and to the
observer, who closes the channel into the first engine. So a stuck network is over, unless all its
channels are open: then it is a ring, no engine has stopped, and every process waits for the one
before it.
-/

namespace WordMachine

namespace Row

variable {e : Engine} {inlet : Channel Empty} {row rest : Row}

/-- Every engine waits on the channel before it. -/
def Waiting : Row → Prop
  | outlet _ => True
  | stage inlet e rest => e.Awaits inlet ∧ rest.Waiting

def Blocked (row : Row) : Prop :=
  ∀ i, row.move i = none

theorem Blocked.tail : (stage inlet e rest).Blocked → rest.Blocked := by
  intro h i
  exact move_eq_none_of_behind (h (i + 1))

/-- A closed channel stops every engine behind it and closes every channel behind it. -/
theorem stopped_of_closed : row.Wired → row.Blocked → row.first.closed = true →
    (∀ e ∈ row.engines, e.status.stop?.isSome = true) ∧ row.last.closed = true := by
  intro hwired hblocked hclosed
  induction row with
  | outlet c =>
      refine ⟨?_, hclosed⟩
      intro e he
      cases he
  | stage inlet e rest ih =>
      rcases hwired with ⟨hbehind, hrest⟩
      have hstopped : e.status.stop?.isSome = true := by
        rcases stopped_or_awaits_of_move_eq_none (hblocked 0) with hstopped | hawaits
        · exact hstopped
        · have hopen : (stage inlet e rest).first.closed = false := hawaits.opened
          rw [hopen] at hclosed
          cases hclosed
      rcases ih hrest hblocked.tail (hbehind.trans hstopped) with ⟨hothers, hlast⟩
      refine ⟨?_, hlast⟩
      intro a ha
      cases ha with
      | head => exact hstopped
      | tail _ ha => exact hothers a ha

/-- One engine that has stopped closes the last channel. -/
theorem closed_of_stopped : row.Wired → row.Blocked →
    (∃ e ∈ row.engines, e.status.stop?.isSome = true) → row.last.closed = true := by
  intro hwired hblocked hstopped
  induction row with
  | outlet c =>
      rcases hstopped with ⟨e, he, -⟩
      cases he
  | stage inlet e rest ih =>
      rcases hwired with ⟨hbehind, hrest⟩
      rcases hstopped with ⟨a, ha, hstop⟩
      rcases List.mem_cons.mp ha with rfl | ha
      · exact (stopped_of_closed hrest hblocked.tail (hbehind.trans hstop)).2
      · exact ih hrest hblocked.tail ⟨a, ha, hstop⟩

/-- Without an engine that has stopped, all of them wait. -/
theorem waiting_of_going : row.Blocked → (∀ e ∈ row.engines, e.status.stop? = none) →
    row.Waiting := by
  intro hblocked hgoing
  induction row with
  | outlet c => trivial
  | stage inlet e rest ih =>
      have hothers : ∀ a ∈ rest.engines, a.status.stop? = none :=
        fun a ha => hgoing a (List.mem_cons_of_mem e ha)
      refine ⟨?_, ih hblocked.tail hothers⟩
      rcases stopped_or_awaits_of_move_eq_none (hblocked 0) with hstopped | hawaits
      · rw [hgoing e List.mem_cons_self] at hstopped
        cases hstopped
      · exact hawaits

end Row

namespace Network

variable {n n' : Network} {p : Process} {order : List Process} {wiring : Wiring}
  {images : List Image} {phases : List Int} {e : Engine} {i : Nat}

def Halting (n : Network) : Prop :=
  ∃ e ∈ n.row.engines, e.status.stop?.isSome = true

structure Deadlocked (n : Network) : Prop where
  feedback : n.feedback = true
  observing : n.observing = true
  going : ∀ e ∈ n.row.engines, e.status.stop? = none
  waiting : n.row.Waiting
  empty : n.row.last.buffer = []
  opened : n.row.last.closed = false

theorem Stuck.row : n.Stuck → n.row.Blocked := by
  intro h i
  have hengine := h (.engine i)
  rw [move_engine, Option.map_eq_none_iff] at hengine
  exact hengine

/-- An observer that cannot move is through or waits. -/
theorem Stuck.last : n.Stuck → n.observing = true → n.row.last.poll = .empty := by
  intro h hobserving
  cases hpoll : n.row.last.poll with
  | empty => rfl
  | ended => exact absurd (.ended hobserving hpoll) h.not_moves
  | value v c => exact absurd (.receive hobserving hpoll) h.not_moves

/-- An engine that has stopped stays as it is. -/
theorem Moves.getElem?_of_stopped : n.Moves p n' → n.row.engines[i]? = some e →
    e.status.stop?.isSome = true → n'.row.engines[i]? = some e := by
  intro h he hstop
  rcases h.engines_eq with hsame | ⟨j, a, a', ha, ⟨_, _, _, _, hpasses⟩, hset⟩
  · rw [hsame]
    exact he
  · have hji : j ≠ i := by
      rintro rfl
      rw [ha] at he
      cases he
      rw [hpasses.going] at hstop
      cases hstop
    rw [hset, List.getElem?_set_ne hji]
    exact he

theorem Halting.of_moves : n.Halting → n.Moves p n' → n'.Halting := by
  intro h hmoves
  rcases h with ⟨a, ha, hstop⟩
  rcases List.mem_iff_getElem?.mp ha with ⟨i, hi⟩
  exact ⟨a, List.mem_of_getElem? (hmoves.getElem?_of_stopped hi hstop), hstop⟩

/-- A stuck network is over, or it is deadlocked and no engine has stopped. -/
theorem Wired.over_or_deadlocked : n.Wired → n.Stuck →
    n.isOver = true ∨ n.Deadlocked ∧ ¬n.Halting := by
  intro hwired hstuck
  have hall : n.row.first.closed = true →
      (∀ e ∈ n.row.engines, e.status.stop?.isSome = true) ∧ n.row.last.closed = true :=
    Row.stopped_of_closed hwired.row hstuck.row
  cases hobserving : n.observing with
  | false =>
      have hclosed : n.row.first.closed = true := by simpa [hobserving] using hwired.first
      have hstopped := List.all_eq_true.mpr (hall hclosed).1
      exact .inl (by rw [isOver, hobserving, hstopped]; rfl)
  | true =>
      -- The observer waits on an open channel, so nobody can have stopped, and in a chain nothing
      -- could keep the first engine from that.
      rcases Channel.poll_eq_empty_iff.mp (hstuck.last hobserving) with ⟨hempty, hopen⟩
      have hnone : ¬n.Halting := by
        intro hhalting
        have hlast := Row.closed_of_stopped hwired.row hstuck.row hhalting
        rw [hopen] at hlast
        cases hlast
      have hgoing : ∀ e ∈ n.row.engines, e.status.stop? = none := by
        intro e he
        cases hstop : e.status.stop? with
        | none => rfl
        | some how => exact absurd ⟨e, he, by rw [hstop]; rfl⟩ hnone
      have hfeedback : n.feedback = true := by
        cases hfeedback : n.feedback with
        | true => rfl
        | false =>
            have hclosed : n.row.first.closed = true := by simpa [hfeedback] using hwired.first
            have hlast := (hall hclosed).2
            rw [hopen] at hlast
            cases hlast
      have hwaiting := Row.waiting_of_going hstuck.row hgoing
      exact .inr ⟨⟨hfeedback, hobserving, hgoing, hwaiting, hempty, hopen⟩, hnone⟩

theorem verdict_of_isOver : n.isOver = true → n.verdict = .finished n.result := by
  intro h
  rw [verdict, if_pos h]

theorem Deadlocked.verdict_eq : n.Deadlocked → n.verdict = .deadlock := by
  intro h
  simp [verdict, isOver, h.observing]

/-- When neither an engine nor the observer can move, in whatever order they have moved so far, then
either all of them have come to their end, and so does `run`, or all of them wait for each other in a
ring. A chain never gets there, and neither does a ring of which an engine has ever stopped. -/
theorem stuck_over_or_deadlocked (hphases : phases ≠ []) (hlength : images.length = phases.length)
    (hfollow : (start wiring images phases).follow order = some n) (hstuck : n.Stuck) :
    (n.isOver = true ∧
        (∃ fuel, ∀ more, run (fuel + more) wiring images phases = some (.finished n.result)) ∨
      n.Deadlocked ∧
        ∃ fuel, ∀ more, run (fuel + more) wiring images phases = some .deadlock) ∧
    (wiring.feedback = false → n.isOver = true) ∧
    ∀ (m : Network) later, m.follow later = some n → m.Halting → n.isOver = true := by
  have hcases := (wired_of_follow hphases hlength hfollow).over_or_deadlocked hstuck
  have hrun := run_eventually hphases hlength hfollow hstuck
  refine ⟨?_, ?_, ?_⟩
  · rcases hcases with hover | ⟨hdeadlocked, -⟩
    · rw [verdict_of_isOver hover] at hrun
      exact .inl ⟨hover, hrun⟩
    · rw [hdeadlocked.verdict_eq] at hrun
      exact .inr ⟨hdeadlocked, hrun⟩
  · intro hchain
    rcases hcases with hover | ⟨hdeadlocked, -⟩
    · exact hover
    · have hring : wiring.feedback = true :=
        (feedback_of_follow hfollow).symm.trans hdeadlocked.feedback
      rw [hchain] at hring
      cases hring
  · intro m later hlater hm
    have hhalting : n.Halting :=
      follow_invariant Halting (fun _ _ _ h hmoves => h.of_moves hmoves) hm hlater
    rcases hcases with hover | ⟨-, hnone⟩
    · exact hover
    · exact absurd hhalting hnone

/-- Two engines in a ring that both want another value. -/
theorem stuck_over_or_deadlocked_ring :
    ∃ n, (start { feedback := true } (List.replicate 2 (Image.ofIntegers [3, 9, 3, 9, 3, 9, 99]))
        [1, 2]).follow [.engine 1, .engine 0, .engine 0] = some n ∧
      n.Stuck ∧ n.Deadlocked := by
  have hend : ∃ n, (start { feedback := true }
        (List.replicate 2 (Image.ofIntegers [3, 9, 3, 9, 3, 9, 99])) [1, 2]).follow
        [.engine 1, .engine 0, .engine 0] = some n ∧
      n.Stuck ∧ n.isOver = false :=
    ⟨_, rfl, by decide, rfl⟩
  rcases hend with ⟨n, hfollow, hstuck, hnot⟩
  refine ⟨n, hfollow, hstuck, ?_⟩
  rcases (stuck_over_or_deadlocked (List.cons_ne_nil 1 [2]) rfl hfollow hstuck).1 with
    ⟨hover, -⟩ | ⟨hdeadlocked, -⟩
  · rw [hnot] at hover
    cases hover
  · exact hdeadlocked

end Network

end WordMachine
