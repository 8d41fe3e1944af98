import WordMachine.Proofs.Device.Residues
import WordMachine.Proofs.Network.Schedule

/-!
# Residues in networks

The phases and the signal of a network may be any integers, and lie in the channels until an engine
receives them. Networks with congruent ones differ only in what is left of them in the channels before the
engines (`Network.Congruent`); what is emitted are words, so the observer sees the same. Every process can
make the same moves in both (`Network.move_congruent`), in any order (`Network.follow_congruent`), and
`Network.run` comes to the same.
-/

namespace WordMachine

/-! ## Engines between channels -/

/-- An engine makes the same move if the channel before it holds congruent values. -/
theorem Engine.Passes.congruent {e e' : Engine} {inlet inlet' outlet before : Channel Empty}
    {δ : Delivery} (h : e.Passes inlet outlet e' inlet' δ) (hinlets : inlet.Congruent before) :
    ∃ before', e.Passes before outlet e' before' δ ∧ inlet'.Congruent before' := by
  have hpolls := hinlets.poll
  cases h with
  | alone going demand => exact ⟨before, .alone going demand, hinlets⟩
  | send going demand opened => exact ⟨before, .send going demand opened, hinlets⟩
  | refused going demand closed => exact ⟨before, .refused going demand closed, hinlets⟩
  | ended going demand poll =>
      rw [poll] at hpolls
      generalize hpoll : before.poll = found at hpolls
      cases hpolls with
      | ended => exact ⟨before, .ended going demand hpoll, hinlets⟩
  | @receive e₁ pending v rest going demand poll =>
      rw [poll] at hpolls
      generalize hpoll : before.poll = found at hpolls
      cases hpolls with
      | @value _ v' _ rest' values rests =>
          have halike : (Reply.value v).Alike (.value v') := .value (Word.ofInt_eq_iff.mpr values)
          rw [halike.resume_eq]
          exact ⟨rest', .receive going demand hpoll, rests⟩

/-! ## Rows -/

namespace Row

/-- The channels before the engines are congruent; the engines and the last channel are the same. -/
inductive Congruent : Row → Row → Prop where
  | outlet (channel : Channel Empty) : Congruent (.outlet channel) (.outlet channel)
  | stage {inlet inlet' : Channel Empty} {e : Engine} {rest rest' : Row}
      (inlets : inlet.Congruent inlet') (rests : Congruent rest rest') :
      Congruent (.stage inlet e rest) (.stage inlet' e rest')

variable {row row' other : Row} {c : Channel Empty} {i : Nat}

theorem Congruent.symm (h : row.Congruent other) : other.Congruent row := by
  induction h with
  | outlet c => exact .outlet c
  | stage inlets rests ih => exact .stage inlets.symm ih

theorem Congruent.engines_eq (h : row.Congruent other) : other.engines = row.engines := by
  induction h with
  | outlet c => rfl
  | stage inlets rests ih => rw [engines, ih, engines]

theorem Congruent.last_eq (h : row.Congruent other) : other.last = row.last := by
  induction h with
  | outlet c => rfl
  | stage inlets rests ih => exact ih

theorem Congruent.first (h : row.Congruent other) : row.first.Congruent other.first := by
  cases h with
  | outlet c => exact .refl c
  | stage inlets rests => exact inlets

/-- What an engine delivers is a word, so a delivery adds the same value on both sides. -/
theorem Congruent.accept (h : row.Congruent other) (δ : Delivery) :
    (row.accept δ).Congruent (other.accept δ) := by
  cases h with
  | outlet c => exact .outlet _
  | stage inlets rests => exact .stage (inlets.accept (.refl _) rfl) rests

theorem Congruent.withLast (h : row.Congruent other) (c : Channel Empty) :
    (row.withLast c).Congruent (other.withLast c) := by
  induction h with
  | outlet _ => exact .outlet c
  | stage inlets rests ih => exact .stage inlets ih

/-- An engine makes the same move in congruent rows. Of what is behind it, it sees only whether the
channel there is closed. -/
theorem Moves.congruent (h : Moves i row row') (hrows : row.Congruent other) :
    ∃ other', Moves i other other' ∧ row'.Congruent other' := by
  induction h generalizing other with
  | here passes =>
      cases hrows with
      | stage inlets rests =>
          rcases passes.congruent inlets with ⟨inlet', hpasses, hinlets⟩
          have hsame := hpasses.congr rests.first.closed_eq rests.first.name_eq
          exact ⟨_, .here hsame, .stage hinlets (rests.accept _)⟩
  | behind moves ih =>
      cases hrows with
      | stage inlets rests =>
          rcases ih rests with ⟨rest', hmoves, hrests⟩
          exact ⟨_, .behind hmoves, .stage inlets hrests⟩

end Row

/-! ## Networks -/

namespace Network

inductive Congruent : Network → Network → Prop where
  | mk {feedback : Bool} {row row' : Row} {observed : Array Int} {observing : Bool}
      (rows : row.Congruent row') :
      Congruent ⟨feedback, row, observed, observing⟩ ⟨feedback, row', observed, observing⟩

variable {n n' m : Network} {p : Process} {order later : List Process} {moved : Bool} {fuel : Nat}
  {feedback : Bool} {signal signal' : Int} {images images' : List Image} {phases phases' : List Int}

theorem Congruent.symm (h : n.Congruent m) : m.Congruent n := by
  rcases h with ⟨hrows⟩
  exact .mk hrows.symm

theorem Congruent.launched (h : n.Congruent m) (hn : n.Launched) : m.Launched := by
  rcases h with ⟨hrows⟩
  intro e he
  exact hn e (hrows.engines_eq ▸ he)

theorem Congruent.processes_eq (h : n.Congruent m) : m.processes = n.processes := by
  rcases h with ⟨hrows⟩
  rw [processes, processes, hrows.engines_eq]

theorem Congruent.isOver_eq (h : n.Congruent m) : m.isOver = n.isOver := by
  rcases h with ⟨hrows⟩
  rw [isOver, isOver, hrows.engines_eq]

/-- The result is made of words and counts, which are the same on both sides. -/
theorem Congruent.result_eq (h : n.Congruent m) : m.result = n.result := by
  rcases h with ⟨hrows⟩
  rw [result, result, hrows.engines_eq]

theorem Congruent.verdict_eq (h : n.Congruent m) : m.verdict = n.verdict := by
  rw [verdict, verdict, h.isOver_eq, h.result_eq]

/-! ## Moves -/

theorem Moves.congruent (h : n.Moves p n') (hnetworks : n.Congruent m) :
    ∃ m', m.Moves p m' ∧ n'.Congruent m' := by
  rcases hnetworks with ⟨hrows⟩
  cases h with
  | engine moves =>
      rcases moves.congruent hrows with ⟨row', hmoves, hrows'⟩
      exact ⟨_, .engine hmoves, .mk hrows'⟩
  | receive observing poll =>
      have hpoll := poll
      rw [← hrows.last_eq] at hpoll
      exact ⟨_, .receive observing hpoll, .mk ((hrows.withLast _).accept _)⟩
  | ended observing poll =>
      have hpoll := poll
      rw [← hrows.last_eq] at hpoll
      exact ⟨_, .ended observing hpoll, .mk (hrows.accept _)⟩

/-- A process can move in both networks or in neither. -/
theorem move_congruent (h : n.Congruent m) (p : Process) :
    Option.Rel Congruent (n.move p) (m.move p) := by
  cases hmove : n.move p with
  | some n' =>
      rcases (moves_of_move hmove).congruent h with ⟨m', hmoves, hafter⟩
      rw [move_of_moves hmoves]
      exact .some hafter
  | none =>
      cases hother : m.move p with
      | none => exact .none
      | some m' =>
          rcases (moves_of_move hother).congruent h.symm with ⟨n', hmoves, -⟩
          rw [move_of_moves hmoves] at hmove
          cases hmove

/-- Every order of moves leads both networks on alike. -/
theorem follow_congruent (h : n.Congruent m) (order : List Process) :
    Option.Rel Congruent (n.follow order) (m.follow order) := by
  induction order generalizing n m with
  | nil => exact .some h
  | cons p order ih =>
      have hmove := move_congruent h p
      unfold follow
      generalize n.move p = r at hmove ⊢
      generalize m.move p = r' at hmove ⊢
      cases hmove with
      | none => exact .none
      | some hafter => exact ih hafter

/-- Both networks come to rest in the same round, with the same fuel. -/
theorem settleFrom_congruent (h : n.Congruent m) (hn : n.Launched) (fuel : Nat)
    (later : List Process) (moved : Bool) :
    Option.Rel Congruent (settleFrom fuel later moved n) (settleFrom fuel later moved m) := by
  induction fuel generalizing n m later moved with
  | zero => exact .none
  | succ fuel ih =>
      cases later with
      | nil =>
          cases moved with
          | false => exact .some h
          | true =>
              simp only [settleFrom, h.processes_eq]
              exact ih h hn _ _
      | cons p later =>
          have hmove := move_congruent h p
          generalize hfirst : n.move p = r at hmove
          generalize hsecond : m.move p = r' at hmove
          cases hmove with
          | none =>
              rw [settleFrom, settleFrom, advance_of_move_eq_none hn hfirst,
                advance_of_move_eq_none (h.launched hn) hsecond]
              exact ih h hn _ _
          | some hafter =>
              have hmoves := moves_of_move hfirst
              rw [settleFrom, settleFrom, hmoves.advance_eq, (moves_of_move hsecond).advance_eq]
              exact ih hafter (hn.of_moves hmoves) _ _

/-! ## Whole networks -/

theorem startFrom_congruent (hsignal : Word.Congruent signal signal')
    (hphases : WordMachine.Congruent phases phases') (place : Nat) (images : List Image) :
    (startFrom { feedback, signal } place (images.zip phases)).Congruent
      (startFrom { feedback, signal := signal' } place (images.zip phases')) := by
  induction hphases generalizing place images with
  | nil =>
      rw [List.zip_nil_right]
      exact .outlet _
  | cons hphase hrest ih =>
      cases images with
      | nil => exact .outlet _
      | cons image images =>
          refine .stage (.mk ?_) (ih (place + 1) images)
          split
          · exact .cons hphase (.cons hsignal .nil)
          · exact .cons hphase .nil

/-- Phases and signals are reduced by the engines that receive them, not by the channels that carry
them. -/
theorem start_congruent (hsignal : Word.Congruent signal signal')
    (hphases : WordMachine.Congruent phases phases') (images : List Image) :
    (start { feedback, signal } images phases).Congruent
      (start { feedback, signal := signal' } images phases') :=
  .mk (startFrom_congruent hsignal hphases 0 images)

theorem run_congruent (hsignal : Word.Congruent signal signal')
    (hphases : WordMachine.Congruent phases phases') (images : List Image) (fuel : Nat) :
    run fuel { feedback, signal } images phases =
      run fuel { feedback, signal := signal' } images phases' := by
  have hempty : phases'.isEmpty = phases.isEmpty := by cases hphases <;> rfl
  have hstart : (start { feedback, signal } images phases).Congruent
      (start { feedback, signal := signal' } images phases') := start_congruent hsignal hphases images
  have hsettle := settleFrom_congruent hstart (launched_start _ _ _) fuel
    (start { feedback, signal } images phases).processes false
  simp only [run, settle, hempty, hphases.length_eq, hstart.processes_eq]
  rw [map_eq_of_rel hsettle fun _ _ h => h.verdict_eq.symm]

/-- Congruent programs are the same images, network by network. -/
theorem map_ofIntegers_congruent {programs programs' : List (List Int)}
    (h : List.Forall₂ WordMachine.Congruent programs programs') :
    programs.map Image.ofIntegers = programs'.map Image.ofIntegers := by
  induction h with
  | nil => rfl
  | cons hprogram hrest ih => rw [List.map_cons, List.map_cons, ih, Image.ofIntegers_congruent hprogram]

end Network

/-- Engines see integers only modulo `2 ^ 64`. Let the integers of two programs be congruent one by one.
Then their engines cannot be told apart, if what is put into them is congruent as well: on scripts they
make the same steps with the same answers and the same outputs, and come to the same by a run; on
channels they do so whatever calls are made, and whatever is sent and closed and received in between.
Networks of such programs with congruent phases and signals come to the same verdict, and every order of
moves leads them through the same states of the engines and the same observations. -/
theorem sees_only_residues :
    (∀ values values', Congruent values values' → ∀ name trace,
      let e₀ := Engine.load name (Image.ofIntegers values) trace
      let e₀' := Engine.load name (Image.ofIntegers values') trace
      (∀ ws ws', Congruent ws ws' →
        (∀ answers e s, e₀.OneByOne Script.device (Script.ofList ws) answers e s →
          ∃ s', e₀'.OneByOne Script.device (Script.ofList ws') answers e s' ∧
            s'.outputs = s.outputs ∧ Congruent s.remaining s'.remaining) ∧
        ∀ fuel,
          (e₀.run Script.device fuel (Script.ofList ws)).map
              (fun (e, s, turn) => (e, s.outputs, s.remaining.length, turn)) =
            (e₀'.run Script.device fuel (Script.ofList ws')).map
              (fun (e, s, turn) => (e, s.outputs, s.remaining.length, turn))) ∧
      ∀ inbound inbound' outbound deeds deeds', inbound.Congruent inbound' →
        List.Forall₂ Deed.Congruent deeds deeds' →
        (Session.attend { engine := e₀, outside := ⟨inbound, outbound⟩ } deeds).map
            (fun (s, answers) => (s.engine, s.outstanding, s.outside.outbound, answers)) =
          (Session.attend { engine := e₀', outside := ⟨inbound', outbound⟩ } deeds').map
            (fun (s, answers) => (s.engine, s.outstanding, s.outside.outbound, answers))) ∧
    ∀ feedback signal signal' programs programs' phases phases', Word.Congruent signal signal' →
      List.Forall₂ Congruent programs programs' → Congruent phases phases' →
      (∀ fuel,
        Network.run fuel { feedback, signal } (programs.map Image.ofIntegers) phases =
          Network.run fuel { feedback, signal := signal' } (programs'.map Image.ofIntegers) phases') ∧
      ∀ order,
        ((Network.start { feedback, signal } (programs.map Image.ofIntegers) phases).follow order).map
            (fun n => (n.row.engines, n.observed, n.verdict)) =
          ((Network.start { feedback, signal := signal' } (programs'.map Image.ofIntegers)
            phases').follow order).map (fun n => (n.row.engines, n.observed, n.verdict)) := by
  refine ⟨?_, ?_⟩
  · intro values values' hvalues name trace
    rw [Image.ofIntegers_congruent hvalues]
    refine ⟨?_, ?_⟩
    · intro ws ws' hws
      have hscripts := Script.congruent_ofList hws
      refine ⟨?_, ?_⟩
      · intro answers e s hsteps
        rcases Script.mirrors_congruent.oneByOne hscripts hsteps with ⟨s', hsteps', ⟨hinputs⟩⟩
        exact ⟨_, hsteps', rfl, hinputs⟩
      · intro fuel
        refine map_eq_of_rel (Script.mirrors_congruent.run hscripts _ fuel) ?_
        rintro _ _ ⟨⟨hinputs⟩⟩
        simp only [hinputs.length_eq]
    · intro inbound inbound' outbound deeds deeds' hinbounds hdeeds
      refine map_eq_of_rel (Session.attend_congruent (.mk (.mk hinbounds)) hdeeds) ?_
      rintro _ _ ⟨⟨⟨-⟩⟩⟩
      rfl
  · intro feedback signal signal' programs programs' phases phases' hsignal hprograms hphases
    rw [Network.map_ofIntegers_congruent hprograms]
    refine ⟨Network.run_congruent hsignal hphases _, ?_⟩
    intro order
    refine map_eq_of_rel (Network.follow_congruent (Network.start_congruent hsignal hphases _) order) ?_
    rintro n m hnetworks
    rw [hnetworks.verdict_eq]
    rcases hnetworks with ⟨hrows⟩
    rw [hrows.engines_eq]

/-- A program that hands one number on and halts, and the same program with `2 ^ 64` added to its first
integer. Inputs, phases and the signal are as far apart. -/
theorem sees_only_residues_wide :
    (∃ seen, ((Engine.load "engine" (Image.ofIntegers [3, 5, 4, 5, 99])).run Script.device 5
          (Script.ofList [7])).map (fun (e, s, turn) => (e, s.outputs, s.remaining.length, turn)) =
        some seen ∧
      ((Engine.load "engine" (Image.ofIntegers [18446744073709551619, 5, 4, 5, 99])).run Script.device 5
          (Script.ofList [-18446744073709551609])).map
          (fun (e, s, turn) => (e, s.outputs, s.remaining.length, turn)) = some seen ∧
      seen.2 = (#[7], 0, .answered (.ok ⟨.halt, 3⟩))) ∧
    (∃ seen, (Session.attend
          { engine := Engine.load "engine" (Image.ofIntegers [18446744073709551619, 5, 4, 5, 99])
            outside := ⟨{ name := "in" }, { name := "out" }⟩ }
          [.call 5 .run, .send (-18446744073709551609), .wake 5]).map
          (fun (s, answers) => (s.engine, s.outstanding, s.outside.outbound, answers)) = some seen ∧
      seen.2.2.1.buffer = [7]) ∧
    Network.run 40 { feedback := true, signal := 18446744073709551623 }
        ([[18446744073709551619, 9, 3, 9, 4, 9, 99], [3, 9, 3, 9, 4, 9, 99]].map Image.ofIntegers)
        [-18446744073709551611, 6] =
      some (.finished (.ok ⟨7, [7], [⟨.halt, 4⟩, ⟨.halt, 4⟩]⟩)) := by
  have hengines := sees_only_residues.1 [3, 5, 4, 5, 99] [18446744073709551619, 5, 4, 5, 99] (by decide)
    "engine" false
  have hrun := (hengines.1 [7] [-18446744073709551609] (by decide)).2 5
  have hsession := hengines.2 { name := "in" } { name := "in" } { name := "out" }
    [.call 5 .run, .send 7, .wake 5] [.call 5 .run, .send (-18446744073709551609), .wake 5]
    (.refl _) (.cons (.same _) (.cons (.send (by decide)) (.cons (.same _) .nil)))
  have hnetwork := (sees_only_residues.2 true 7 18446744073709551623
    [[3, 9, 3, 9, 4, 9, 99], [3, 9, 3, 9, 4, 9, 99]]
    [[18446744073709551619, 9, 3, 9, 4, 9, 99], [3, 9, 3, 9, 4, 9, 99]] [5, 6]
    [-18446744073709551611, 6] (by decide) (by decide) (by decide)).1 40
  exact ⟨⟨_, rfl, hrun.symm, rfl⟩, ⟨_, hsession.symm, rfl⟩, hnetwork.symm⟩

end WordMachine
