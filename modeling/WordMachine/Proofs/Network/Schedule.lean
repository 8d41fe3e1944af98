import WordMachine.Proofs.Network.Diamond

/-!
# Rounds of moves

`Network.settle` tries the processes round by round. An attempt that fails changes nothing in a
network that has been started (`Network.advance_of_move_eq_none`), so a round is an order of moves
like any other, and a round without a move shows that the network is stuck. Since every order of
moves ends in the same stuck network if any does, `settle` finds that network
(`Network.settleFrom_eventually`), and its result is the result of every order.
-/

namespace WordMachine

/-! ## Engines that have been started -/

namespace Engine

variable {σ : Type} {e e' : Engine} {inlet inlet' outlet : Channel Empty} {δ : Delivery}

theorem trace_complete (e : Engine) (effect : Effect) :
    (e.complete effect).1.trace = e.trace := by
  cases effect <;> rfl

theorem trace_resume (e : Engine) (pending : Pending) (reply : Reply) :
    (e.resume pending reply).1.trace = e.trace := by
  cases reply with
  | value v => exact trace_complete _ _
  | _ => rfl

theorem trace_settle (e : Engine) (reaction : Except Fault Unit) :
    (e.settle reaction).1.trace = e.trace := by
  cases reaction <;> rfl

theorem trace_executing (e : Engine) (i : Instruction) : (e.executing i).trace = e.trace := by
  unfold executing note
  split <;> rfl

/-- No step switches tracing on or off. -/
theorem trace_step (d : Device σ) (e : Engine) (s : σ) : (e.step d s).1.trace = e.trace := by
  cases hstop : e.status.stop? with
  | some how => rw [step_of_stopped hstop]
  | none =>
      rw [step_eq_meet]
      cases hdecode : e.machine.decode with
      | error why =>
          rw [demand_of_error hstop hdecode]
          rfl
      | ok i =>
          rw [demand_of_ok hstop hdecode, ← trace_executing e i]
          rcases e.machine.execute i with ⟨m, effect⟩
          cases effect with
          | request dest => exact trace_resume _ _ _
          | emit value => exact trace_settle _ _
          | _ => exact trace_complete _ _

structure Launched (e : Engine) : Prop where
  quiet : e.trace = false
  started : e.status ≠ .idle

theorem Launched.of_passes : e.Launched → e.Passes inlet outlet e' inlet' δ → e'.Launched := by
  intro h hpasses
  rcases hpasses.step_eq with ⟨answer, hstep⟩
  have htrace := trace_step Link.device e ⟨inlet, outlet⟩
  have hagrees := agrees_step hpasses.going Link.device ⟨inlet, outlet⟩
  rw [hstep] at htrace hagrees
  refine ⟨htrace.trans h.quiet, ?_⟩
  have hstatus : e'.status = (Turn.answered answer).status := hagrees.status_eq
  rw [hstatus]
  rcases answer with why | (_ | (_ | _)) <;> simp [Turn.status]

/-- An engine that is asked in vain is the same afterwards. -/
theorem Launched.executing_eq (i : Instruction) :
    e.Launched → e.status.stop? = none → e.executing i = e := by
  intro h hgoing
  rcases e with ⟨name, trace, machine, status, steps, events⟩
  have hquiet : trace = false := h.quiet
  subst hquiet
  cases status with
  | running => rfl
  | idle => exact absurd rfl h.started
  | _ => cases hgoing

/-- An engine may become another one by a move. -/
def Advances (e e' : Engine) : Prop :=
  ∃ inlet outlet inlet' δ, e.Passes inlet outlet e' inlet' δ

end Engine

namespace Row

variable {row row' : Row} {i : Nat}

@[simp] theorem engines_accept (row : Row) (δ : Delivery) :
    (row.accept δ).engines = row.engines := by
  cases row <;> rfl

@[simp] theorem engines_withLast (row : Row) (c : Channel Empty) :
    (row.withLast c).engines = row.engines := by
  induction row with
  | outlet d => rfl
  | stage inlet e rest ih => simp [withLast, engines, ih]

/-- A move of an engine changes that engine only. -/
theorem Moves.engines_eq : Moves i row row' →
    ∃ e e', row.engines[i]? = some e ∧ e.Advances e' ∧ row'.engines = row.engines.set i e' := by
  intro h
  induction h with
  | @here e e' inlet inlet' rest δ passes =>
      exact ⟨e, e', rfl, ⟨_, _, _, _, passes⟩, by simp [engines]⟩
  | behind moves ih =>
      rcases ih with ⟨a, a', hget, hadvances, hset⟩
      exact ⟨a, a', hget, hadvances, by simp [engines, hset]⟩

theorem move_of_length_le : row.engines.length ≤ i → row.move i = none := by
  intro h
  cases hmove : row.move i with
  | none => rfl
  | some row' =>
      rcases (moves_of_move hmove).engines_eq with ⟨e, e', hget, -, -⟩
      rw [List.getElem?_eq_none h] at hget
      cases hget

/-- Asking a launched engine in vain for a move changes nothing. -/
theorem step_of_move_eq_none : (∀ e ∈ row.engines, Engine.Launched e) → row.move i = none →
    row.step i = (row, false) := by
  intro hlaunched h
  induction row generalizing i with
  | outlet c => cases i <;> rfl
  | stage inlet e rest ih =>
      cases i with
      | succ i =>
          have hothers : ∀ a ∈ rest.engines, Engine.Launched a :=
            fun a ha => hlaunched a (List.mem_cons_of_mem e ha)
          simp [step, ih hothers (move_eq_none_of_behind h)]
      | zero =>
          have he : e.Launched := hlaunched e List.mem_cons_self
          rcases stopped_or_awaits_of_move_eq_none h with hstopped | hawaits
          · exact stepStage_of_stopped hstopped
          · rcases stepStage_of_awaits rest hawaits with ⟨dest, hstage⟩
            rw [he.executing_eq _ hawaits.going] at hstage
            exact hstage

end Row

namespace Network

variable {n n' : Network} {p : Process} {order before later : List Process} {moved : Bool}

/-- A move of an engine changes that engine, a move of the observer none. -/
theorem Moves.engines_eq : n.Moves p n' →
    n'.row.engines = n.row.engines ∨
      ∃ i e e', n.row.engines[i]? = some e ∧ e.Advances e' ∧
        n'.row.engines = n.row.engines.set i e' := by
  intro h
  cases h with
  | engine moves => exact .inr ⟨_, moves.engines_eq⟩
  | receive observing poll => exact .inl (by simp)
  | ended observing poll => exact .inl (by simp)

theorem Moves.processes_eq : n.Moves p n' → n'.processes = n.processes := by
  intro h
  have hlength : n'.row.engines.length = n.row.engines.length := by
    rcases h.engines_eq with hsame | ⟨i, e, e', -, -, hset⟩
    · rw [hsame]
    · rw [hset, List.length_set]
  rw [processes, hlength, processes]

/-- Every engine has been started. -/
def Launched (n : Network) : Prop :=
  ∀ e ∈ n.row.engines, Engine.Launched e

theorem launched_startFrom (wiring : Wiring) (place : Nat) (programs : List (Image × Int)) :
    ∀ e ∈ (startFrom wiring place programs).engines, Engine.Launched e := by
  induction programs generalizing place with
  | nil =>
      intro e he
      cases he
  | cons program programs ih =>
      intro e he
      rcases List.mem_cons.mp he with rfl | he
      · exact ⟨rfl, Status.noConfusion⟩
      · exact ih (place + 1) e he

theorem launched_start (wiring : Wiring) (images : List Image) (phases : List Int) :
    (start wiring images phases).Launched :=
  launched_startFrom wiring 0 _

/-- What each engine keeps when it advances, the engines of a network keep. -/
theorem Moves.forall_engines {inv : Engine → Prop} (hkeeps : ∀ e e', inv e → e.Advances e' → inv e')
    (hn : ∀ e ∈ n.row.engines, inv e) (h : n.Moves p n') : ∀ e ∈ n'.row.engines, inv e := by
  intro a ha
  rcases h.engines_eq with hsame | ⟨i, e, e', hget, hadvances, hset⟩
  · rw [hsame] at ha
    exact hn a ha
  · rw [hset] at ha
    rcases List.mem_or_eq_of_mem_set ha with ha | rfl
    · exact hn a ha
    · exact hkeeps e a (hn e (List.mem_of_getElem? hget)) hadvances

/-- Started engines stay as they are while others move, so this holds along every order. -/
theorem Launched.of_moves : n.Launched → n.Moves p n' → n'.Launched := by
  intro hn h
  exact h.forall_engines (fun _ _ he ⟨_, _, _, _, hpasses⟩ => he.of_passes hpasses) hn

/-- A process that cannot move leaves the network as it is. -/
theorem advance_of_move_eq_none : n.Launched → n.move p = none → n.advance p = (n, false) := by
  intro hn h
  cases p with
  | engine i =>
      rw [move_engine, Option.map_eq_none_iff] at h
      rcases n with ⟨feedback, row, observed, observing⟩
      simp only [advance, Row.step_of_move_eq_none hn h]
  | observer =>
      cases hobserving : n.observing with
      | false => simp [advance, observe, hobserving]
      | true =>
          cases hpoll : n.row.last.poll with
          | empty => exact observe_of_empty hpoll
          | ended =>
              rw [move_of_moves (.ended hobserving hpoll)] at h
              cases h
          | value v c =>
              rw [move_of_moves (.receive hobserving hpoll)] at h
              cases h

/-- The executable move is the one that the relation describes. -/
theorem Moves.advance_eq : n.Moves p n' → n.advance p = (n', true) := by
  intro h
  have hmove := move_of_moves h
  rcases hadvance : n.advance p with ⟨m, moved⟩
  cases moved with
  | true => simpa [move, hadvance] using hmove
  | false => simp [move, hadvance] at hmove

/-- If none of the processes can move, nothing can. -/
theorem stuck_iff : n.Stuck ↔ ∀ p ∈ n.processes, n.move p = none := by
  constructor
  · intro h p _
    exact h p
  · intro h p
    cases p with
    | observer => exact h .observer (List.mem_append_right _ List.mem_cons_self)
    | engine i =>
        by_cases hi : i < n.row.engines.length
        · refine h (.engine i) (List.mem_append_left _ ?_)
          exact List.mem_map_of_mem (List.mem_range.mpr hi)
        · rw [move_engine, Row.move_of_length_le (Nat.le_of_not_lt hi)]
          rfl

instance : DecidablePred Stuck := fun n =>
  decidable_of_iff (∀ p ∈ n.processes, (n.move p).isNone) <| by
    simp only [Option.isNone_iff_eq_none]
    exact stuck_iff.symm

/-! ## Rounds -/

/-- A round in which the processes `before` have had their turn. As long as none of them has moved,
none of them can. -/
structure Round (before later : List Process) (moved : Bool) (n : Network) : Prop where
  launched : n.Launched
  split : n.processes = before ++ later
  tried : moved = false → ∀ p ∈ before, n.move p = none

namespace Round

/-- A round in which nobody has had a turn yet. -/
theorem first : n.Launched → Round [] n.processes false n := by
  intro h
  refine ⟨h, rfl, ?_⟩
  intro _ p hp
  cases hp

/-- After a move the round goes on, and there will be another one. -/
theorem of_moves : Round before (p :: later) moved n → n.Moves p n' →
    Round before (p :: later) true n' := by
  intro h hmoves
  refine ⟨h.launched.of_moves hmoves, hmoves.processes_eq.trans h.split, ?_⟩
  intro hmoved
  cases hmoved

/-- A process that cannot move is passed over; what has been tried before stays blocked. -/
theorem of_blocked : Round before (p :: later) moved n → n.move p = none →
    Round (before ++ [p]) later moved n := by
  intro h hblocked
  refine ⟨h.launched, by simpa using h.split, ?_⟩
  intro hmoved q hq
  rcases List.mem_append.mp hq with hq | hq
  · exact h.tried hmoved q hq
  · rw [List.mem_singleton.mp hq]
    exact hblocked

/-- After a whole round without a move the network is stuck. -/
theorem stuck : Round before [] false n → n.Stuck := by
  intro h
  have hall : n.processes = before := by simpa using h.split
  refine stuck_iff.mpr ?_
  rw [hall]
  exact h.tried rfl

end Round

/-- If settling comes to an end, then by an order of moves that leaves nothing to move. -/
theorem follow_of_settleFrom {fuel : Nat} : Round before later moved n →
    settleFrom fuel later moved n = some n' → ∃ order, n.follow order = some n' ∧ n'.Stuck := by
  intro h hsettle
  induction fuel generalizing before later moved n with
  | zero => cases hsettle
  | succ fuel ih =>
      cases later with
      | nil =>
          cases moved with
          | true => exact ih (Round.first h.launched) hsettle
          | false =>
              cases hsettle
              exact ⟨[], rfl, h.stuck⟩
      | cons p later =>
          cases hmove : n.move p with
          | none =>
              rw [settleFrom, advance_of_move_eq_none h.launched hmove] at hsettle
              exact ih (h.of_blocked hmove) hsettle
          | some m =>
              have hmoves := moves_of_move hmove
              rw [settleFrom, hmoves.advance_eq] at hsettle
              rcases ih (h.of_moves hmoves) hsettle with ⟨order, hfollow, hstuck⟩
              exact ⟨p :: order, (follow_cons hmoves).trans hfollow, hstuck⟩

/-- If some order of moves leaves nothing to move, settling comes to the same end, given the fuel. -/
theorem settleFrom_eventually {n n' : Network} {order before later : List Process} {moved : Bool}
    (h : Round before later moved n) (hstuck : n'.Stuck) (hfollow : n.follow order = some n') :
    ∃ fuel, ∀ more, settleFrom (fuel + more) later moved n = some n' := by
  -- A move shortens the order that is left, a round without one ends the search, and within a round
  -- there are fewer and fewer processes to try.
  cases later with
  | nil =>
      cases moved with
      | false =>
          rcases h.stuck.eq_nil hfollow with ⟨-, rfl⟩
          refine ⟨1, fun more => ?_⟩
          rw [Nat.add_comm]
          rfl
      | true =>
          rcases settleFrom_eventually (Round.first h.launched) hstuck hfollow with ⟨fuel, hfuel⟩
          refine ⟨fuel + 1, fun more => ?_⟩
          rw [Nat.add_right_comm]
          exact hfuel more
  | cons p later =>
      cases hmove : n.move p with
      | none =>
          rcases settleFrom_eventually (h.of_blocked hmove) hstuck hfollow with ⟨fuel, hfuel⟩
          refine ⟨fuel + 1, fun more => ?_⟩
          rw [Nat.add_right_comm, settleFrom, advance_of_move_eq_none h.launched hmove]
          exact hfuel more
      | some m =>
          have hmoves := moves_of_move hmove
          rcases follow_of_moves hstuck hmoves hfollow with ⟨rest, hperm, hrest⟩
          have hshorter : rest.length < order.length := by
            rw [← hperm.length_eq]
            exact Nat.lt_succ_self _
          rcases settleFrom_eventually (h.of_moves hmoves) hstuck hrest with ⟨fuel, hfuel⟩
          refine ⟨fuel + 1, fun more => ?_⟩
          rw [Nat.add_right_comm, settleFrom, hmoves.advance_eq]
          exact hfuel more
termination_by (order.length, moved.toNat, later.length)

/-! ## Results -/

variable {wiring : Wiring} {images : List Image} {phases : List Int} {fuel : Nat}
  {verdict : Verdict NetworkResult}

/-- Running is settling, for as many programs as phases. -/
theorem run_eq (hphases : phases ≠ []) (hlength : images.length = phases.length) (fuel : Nat) :
    run fuel wiring images phases =
      (settle fuel (start wiring images phases)).map Network.verdict := by
  simp [run, hphases, hlength]

/-- Every finished run has taken some order of moves to a network in which nothing can move. -/
theorem follow_of_run (hphases : phases ≠ []) (hlength : images.length = phases.length) :
    run fuel wiring images phases = some verdict →
      ∃ order n, (start wiring images phases).follow order = some n ∧ n.Stuck ∧
        verdict = n.verdict := by
  intro hrun
  rw [run_eq hphases hlength] at hrun
  rcases Option.map_eq_some_iff.mp hrun with ⟨n, hsettle, rfl⟩
  have hround := Round.first (launched_start wiring images phases)
  rcases follow_of_settleFrom hround hsettle with ⟨order, hfollow, hstuck⟩
  exact ⟨order, n, hfollow, hstuck, rfl⟩

/-- Once an order of moves ends, enough fuel makes the run end, with the same verdict. -/
theorem run_eventually (hphases : phases ≠ []) (hlength : images.length = phases.length) :
    (start wiring images phases).follow order = some n → n.Stuck →
      ∃ fuel, ∀ more, run (fuel + more) wiring images phases = some n.verdict := by
  intro hfollow hstuck
  have hround := Round.first (launched_start wiring images phases)
  rcases settleFrom_eventually hround hstuck hfollow with ⟨fuel, hfuel⟩
  refine ⟨fuel, fun more => ?_⟩
  calc
    run (fuel + more) wiring images phases
        = (settle (fuel + more) (start wiring images phases)).map Network.verdict :=
          run_eq hphases hlength _
    _ = (some n).map Network.verdict := by rw [settle, hfuel more]
    _ = some n.verdict := rfl

end Network

def Engine.fault? (e : Engine) : Option Fault :=
  match e.status with
  | .faulted why => some why
  | _ => none

def Engine.report? (e : Engine) : Option RunResult :=
  match e.outcome? with
  | some (.ok report) => some report
  | _ => none

namespace Network

variable {n : Network} {order : List Process}

/-- Of several faults, the one of the lowest-numbered engine is reported. -/
theorem reports_eq (engines : List Engine) :
    reports engines =
      match engines.findSome? Engine.fault? with
      | some why => .error why
      | none => .ok (engines.filterMap Engine.report?) := by
  induction engines with
  | nil => rfl
  | cons e rest ih =>
      cases hstatus : e.status with
      | faulted why => simp [reports, Engine.outcome?, Engine.fault?, hstatus]
      | idle => simp [reports, Engine.outcome?, Engine.fault?, Engine.report?, hstatus, ih]
      | running => simp [reports, Engine.outcome?, Engine.fault?, Engine.report?, hstatus, ih]
      | halted =>
          simp only [reports, Engine.outcome?, Engine.fault?, Engine.report?, hstatus, ih,
            List.findSome?_cons, List.filterMap_cons]
          cases rest.findSome? Engine.fault? <;> rfl
      | ended =>
          simp only [reports, Engine.outcome?, Engine.fault?, Engine.report?, hstatus, ih,
            List.findSome?_cons, List.filterMap_cons]
          cases rest.findSome? Engine.fault? <;> rfl

/-- The fault that counts is the one of the first engine that has one, whichever happened first. -/
theorem result_eq (n : Network) :
    n.result =
      match n.row.engines.findSome? Engine.fault?, n.observed.back? with
      | some why, _ => .error why
      | none, none => .error .noOutput
      | none, some signal =>
        .ok ⟨signal, n.observed.toList, n.row.engines.filterMap Engine.report?⟩ := by
  rw [result, reports_eq]
  cases n.row.engines.findSome? Engine.fault? with
  | some why => rfl
  | none => cases n.observed.back? <;> rfl

/-- In every state that a network can reach, moves of different processes commute. If one order of
moves leaves nothing to move, every other order can be continued to the same network, has made the
same moves when it gets there, and is there as soon as nothing can move; `run` then has the verdict
of that network, and no other. The fault that a result reports is the one of the first engine that
has one, and only without any fault does it matter whether something was observed. -/
theorem schedule_independent (wiring : Wiring) (images : List Image) (phases : List Int)
    (hfollow : (start wiring images phases).follow order = some n) :
    (∀ p q n₁ n₂, p ≠ q → n.move p = some n₁ → n.move q = some n₂ →
      ∃ n', n₁.move q = some n' ∧ n₂.move p = some n') ∧
    (n.Stuck →
      (∀ begun m, (start wiring images phases).follow begun = some m →
        (∃ rest, m.follow rest = some n ∧ (begun ++ rest).Perm order) ∧
        (m.Stuck → m = n ∧ begun.length = order.length ∧ begun.Perm order)) ∧
      (phases ≠ [] → images.length = phases.length →
        (∃ fuel, ∀ more, run (fuel + more) wiring images phases = some n.verdict) ∧
        ∀ fuel verdict, run fuel wiring images phases = some verdict → verdict = n.verdict)) ∧
    n.result =
      match n.row.engines.findSome? Engine.fault?, n.observed.back? with
      | some why, _ => .error why
      | none, none => .error .noOutput
      | none, some signal =>
        .ok ⟨signal, n.observed.toList, n.row.engines.filterMap Engine.report?⟩ := by
  refine ⟨?_, ?_, result_eq n⟩
  · intro p q n₁ n₂ hne h₁ h₂
    rcases (moves_of_move h₁).comm hne (moves_of_move h₂) with ⟨n', hn₁, hn₂⟩
    exact ⟨n', move_of_moves hn₁, move_of_moves hn₂⟩
  · intro hstuck
    refine ⟨?_, ?_⟩
    · intro begun m hbegun
      refine ⟨?_, ?_⟩
      · rcases follow_stuck hstuck hfollow hbegun with ⟨rest, hperm, hrest⟩
        exact ⟨rest, hrest, hperm⟩
      · intro hstuck'
        rcases stuck_unique hstuck hfollow hstuck' hbegun with ⟨hsame, hperm⟩
        exact ⟨hsame, hperm.length_eq, hperm⟩
    · intro hphases hlength
      refine ⟨run_eventually hphases hlength hfollow hstuck, ?_⟩
      intro fuel verdict hrun
      rcases follow_of_run hphases hlength hrun with ⟨begun, m, hbegun, hstuck', rfl⟩
      have hsame : m = n := (stuck_unique hstuck hfollow hstuck' hbegun).1
      rw [hsame]

/-- Two engines that pass one value on each, the second one before the first. -/
theorem schedule_independent_pair :
    ∃ n, (start {} (List.replicate 2 (Image.ofIntegers [3, 9, 4, 9, 99])) [7, 8]).follow
        [.engine 1, .engine 1, .engine 0, .observer, .engine 0, .engine 1, .observer, .engine 0] =
        some n ∧
      n.Stuck ∧
      n.verdict = .finished (.ok ⟨8, [8], [⟨.halt, 3⟩, ⟨.halt, 3⟩]⟩) ∧
      ∃ fuel, run fuel {} (List.replicate 2 (Image.ofIntegers [3, 9, 4, 9, 99])) [7, 8] =
        some n.verdict := by
  have hend : ∃ n, (start {} (List.replicate 2 (Image.ofIntegers [3, 9, 4, 9, 99])) [7, 8]).follow
        [.engine 1, .engine 1, .engine 0, .observer, .engine 0, .engine 1, .observer, .engine 0] =
        some n ∧
      n.Stuck ∧ n.verdict = .finished (.ok ⟨8, [8], [⟨.halt, 3⟩, ⟨.halt, 3⟩]⟩) :=
    ⟨_, rfl, by decide, rfl⟩
  rcases hend with ⟨n, hfollow, hstuck, hverdict⟩
  refine ⟨n, hfollow, hstuck, hverdict, ?_⟩
  have hrun := ((schedule_independent _ _ _ hfollow).2.1 hstuck).2 (List.cons_ne_nil 7 [8]) rfl
  rcases hrun.1 with ⟨fuel, hfuel⟩
  exact ⟨fuel, hfuel 0⟩

end Network

end WordMachine
