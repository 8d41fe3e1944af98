import WordMachine.Proofs.Network.Alone
import WordMachine.Proofs.Network.Closing
import WordMachine.Proofs.Network.Schedule

/-!
# The equations of a network

A network computes what its engines compute one by one. Let `out i` be what the engine at place `i`
has emitted. The engine behind it has been sent exactly that, behind its phase; the first engine has
been sent the signal, and in a ring whatever the observer has seen; and the observer has seen what
the last engine has emitted, but for the values that are still on their way. `Row.Flows` says so of a
row and compares each engine with the one that runs alone on what the engine has been sent. It holds
at the start and every move keeps it.

When the network is over, these equations determine what it has done: `Network.kahn_equations`.
-/

namespace WordMachine

/-! ## What has been sent -/

/-- What a move of the engine at a place emits. -/
def Row.emission : Nat → Row → List Int
  | _, outlet _ => []
  | 0, stage inlet e rest => e.emission Link.device ⟨inlet, rest.first⟩
  | place + 1, stage _ _ rest => rest.emission place

namespace Network

/-- What the engine at a place emits when the processes move in the given order. -/
def emitted : Network → List Process → Nat → List Int
  | _, [], _ => []
  | n, p :: order, place =>
    (if p = .engine place then n.row.emission place else []) ++
      (n.advance p).1.emitted order place

/-- What is sent to the engine at a place behind its phase, if the observer has seen `observed` and
the engines have emitted `out`. Behind the last engine it is what the observer is sent. -/
def supply (wiring : Wiring) (observed : List Int) (out : Nat → List Int) : Nat → List Int
  | 0 => wiring.signal :: if wiring.feedback then observed else []
  | place + 1 => out place

end Network

/-! ## The invariant -/

namespace Row

variable {e e' : Engine} {inlet : Channel Empty} {row row' rest : Row} {c : Channel Empty} {v : Int}
  {δ : Delivery} {i place : Nat} {observed : List Int} {supply supply' out out' : Nat → List Int}
  {programs : List (Image × Int)}

/-- In a row of engines that run the given programs from a place on, each engine has come to where it
comes alone on its phase and what it has been supplied with, and the observer has seen or will see
what is supplied behind the row. -/
def Flows (observed : List Int) (supply out : Nat → List Int) :
    Nat → List (Image × Int) → Row → Prop
  | place, [], outlet c => observed ++ c.buffer = supply place
  | place, (image, phase) :: programs, stage inlet e rest =>
    Engine.Tracks (Network.launch place image) (phase :: supply place) inlet e (out place) ∧
      Flows observed supply out (place + 1) programs rest
  | _, _, _ => False

theorem flows_outlet :
    Flows observed supply out place programs (outlet c) ↔
      programs = [] ∧ observed ++ c.buffer = supply place := by
  cases programs with
  | nil => exact ⟨fun h => ⟨rfl, h⟩, And.right⟩
  | cons program programs =>
      constructor
      · intro h
        cases h
      · rintro ⟨h, -⟩
        cases h

theorem flows_stage :
    Flows observed supply out place programs (stage inlet e rest) ↔
      ∃ image phase later, programs = (image, phase) :: later ∧
        Engine.Tracks (Network.launch place image) (phase :: supply place) inlet e (out place) ∧
        Flows observed supply out (place + 1) later rest := by
  cases programs with
  | nil =>
      constructor
      · intro h
        cases h
      · rintro ⟨image, phase, later, h, -⟩
        cases h
  | cons program programs =>
      constructor
      · intro h
        exact ⟨program.1, program.2, programs, rfl, h⟩
      · rintro ⟨image, phase, later, h, hrest⟩
        cases h
        exact hrest

/-- Only what happens in the row matters. -/
theorem Flows.congr (hsupply : ∀ j, place ≤ j → supply' j = supply j)
    (hout : ∀ j, place ≤ j → out' j = out j) :
    Flows observed supply out place programs row →
      Flows observed supply' out' place programs row := by
  intro h
  have hhere := hsupply place (Nat.le_refl place)
  induction row generalizing place programs with
  | outlet c =>
      rcases flows_outlet.mp h with ⟨hnil, hc⟩
      exact flows_outlet.mpr ⟨hnil, hc.trans hhere.symm⟩
  | stage inlet e rest ih =>
      rcases flows_stage.mp h with ⟨image, phase, later, hcons, htracks, hrest⟩
      have hbehind := ih (fun j hj => hsupply j (Nat.le_of_succ_le hj))
        (fun j hj => hout j (Nat.le_of_succ_le hj)) hrest (hsupply _ (Nat.le_succ place))
      refine flows_stage.mpr ⟨image, phase, later, hcons, ?_, hbehind⟩
      rw [hhere, hout place (Nat.le_refl place)]
      exact htracks

/-- What is sent on the first channel is supplied to the first engine. -/
theorem Flows.accept (hhere : supply' place = supply place ++ δ.value?.toList)
    (hsupply : ∀ j, place < j → supply' j = supply j) (hout : ∀ j, place ≤ j → out' j = out j) :
    Flows observed supply out place programs row → (row.first.closed = true → δ.value? = none) →
      Flows observed supply' out' place programs (row.accept δ) := by
  intro h hopen
  cases row with
  | outlet c =>
      rcases flows_outlet.mp h with ⟨hnil, hc⟩
      have hbuffer : ((outlet c).first.accept δ).buffer = c.buffer ++ δ.value?.toList :=
        Channel.buffer_accept hopen
      refine flows_outlet.mpr ⟨hnil, ?_⟩
      rw [hbuffer, hhere, ← hc, List.append_assoc]
  | stage inlet e rest =>
      rcases flows_stage.mp h with ⟨image, phase, later, hcons, htracks, hrest⟩
      have hbehind := hrest.congr hsupply fun j hj => hout j (Nat.le_of_succ_le hj)
      refine flows_stage.mpr ⟨image, phase, later, hcons, ?_, hbehind⟩
      rw [hhere, hout place (Nat.le_refl place)]
      exact htracks.accept hopen

/-- What the observer receives is no longer on its way. -/
theorem Flows.withLast : Flows observed supply out place programs row →
    row.last.poll = .value v c →
      Flows (observed ++ [v]) supply out place programs (row.withLast c) := by
  intro h hpoll
  induction row generalizing place programs with
  | outlet d =>
      rcases flows_outlet.mp h with ⟨hnil, hd⟩
      have hlast : d.poll = .value v c := hpoll
      rcases Channel.poll_eq_value_iff.mp hlast with ⟨later, hbuffer, rfl⟩
      refine flows_outlet.mpr ⟨hnil, ?_⟩
      simpa [hbuffer] using hd
  | stage inlet e rest ih =>
      rcases flows_stage.mp h with ⟨image, phase, later, hcons, htracks, hrest⟩
      exact flows_stage.mpr ⟨image, phase, later, hcons, htracks, ih hrest hpoll⟩

/-- An engine's move emits what it is said to, and supplies the next engine with it. -/
theorem Flows.of_moves (hmoves : Moves i row row')
    (hout : ∀ j, out' j = out j ++ if j = place + i then row.emission i else [])
    (hsupply : ∀ j, place ≤ j →
      supply' j = supply j ++ if j = place + i + 1 then row.emission i else []) :
    Flows observed supply out place programs row → row.Wired →
      Flows observed supply' out' place programs row' := by
  intro h hwired
  induction hmoves generalizing place programs with
  | @here e e' inlet inlet' rest δ passes =>
      rcases flows_stage.mp h with ⟨image, phase, later, hcons, htracks, hflows⟩
      have hopen : rest.first.closed = false := by simpa [passes.going] using hwired.1
      have hemission : (stage inlet e rest).emission 0 = δ.value?.toList := passes.emission_eq
      rw [hemission] at hout hsupply
      have hhere : supply' place = supply place := by simpa using hsupply place
      have hnext : supply' (place + 1) = supply (place + 1) ++ δ.value?.toList := by
        simpa using hsupply (place + 1)
      have hemitted : out' place = out place ++ δ.value?.toList := by simpa using hout place
      have hbehind : Flows observed supply' out' (place + 1) later (rest.accept δ) := by
        refine hflows.accept hnext ?_ ?_ (by simp [hopen])
        · intro j hj
          simpa [Nat.ne_of_gt hj] using hsupply j (by omega)
        · intro j hj
          simpa [Nat.ne_of_gt hj] using hout j
      refine flows_stage.mpr ⟨image, phase, later, hcons, ?_, hbehind⟩
      rw [hhere, hemitted]
      exact htracks.of_passes hopen passes
  | @behind e inlet rest rest' i moves ih =>
      rcases flows_stage.mp h with ⟨image, phase, later, hcons, htracks, hflows⟩
      have hplace : place + (i + 1) = place + 1 + i := Nat.add_right_comm place i 1
      rw [hplace] at hout hsupply
      have hhere : supply' place = supply place := by
        rw [hsupply place (Nat.le_refl place), if_neg (by omega), List.append_nil]
      have hemitted : out' place = out place := by
        rw [hout place, if_neg (by omega), List.append_nil]
      have hbehind := ih hout (fun j hj => hsupply j (Nat.le_of_succ_le hj)) hflows hwired.2
      refine flows_stage.mpr ⟨image, phase, later, hcons, ?_, hbehind⟩
      rw [hhere, hemitted]
      exact htracks

/-- The engine at a place, and the channel before it, by the invariant. -/
theorem Flows.tracks (h : Flows observed supply out place programs row) {image : Image} {phase : Int}
    (hprogram : programs[i]? = some (image, phase)) :
    ∃ inlet e, row.channels[i]? = some inlet ∧ row.engines[i]? = some e ∧
      Engine.Tracks (Network.launch (place + i) image) (phase :: supply (place + i)) inlet e
        (out (place + i)) := by
  induction row generalizing place i programs with
  | outlet c =>
      rcases flows_outlet.mp h with ⟨rfl, -⟩
      cases hprogram
  | stage inlet e rest ih =>
      rcases flows_stage.mp h with ⟨image', phase', later, rfl, htracks, hrest⟩
      cases i with
      | zero =>
          cases hprogram
          exact ⟨inlet, e, rfl, rfl, htracks⟩
      | succ i =>
          rcases ih hrest hprogram with ⟨inlet', e', hchannel, hengine, htracks'⟩
          refine ⟨inlet', e', hchannel, hengine, ?_⟩
          rw [Nat.add_right_comm] at htracks'
          exact htracks'

/-- What is supplied behind the row has been observed, or is about to be. -/
theorem Flows.observed_append (h : Flows observed supply out place programs row) :
    observed ++ row.last.buffer = supply (place + programs.length) := by
  induction row generalizing place programs with
  | outlet c =>
      rcases flows_outlet.mp h with ⟨rfl, hc⟩
      exact hc
  | stage inlet e rest ih =>
      rcases flows_stage.mp h with ⟨image, phase, later, rfl, -, hrest⟩
      have hbehind := ih hrest
      rw [Nat.add_right_comm] at hbehind
      exact hbehind

end Row

namespace Network

variable {n n' : Network} {p : Process} {order : List Process} {wiring : Wiring}
  {images : List Image} {phases : List Int} {programs : List (Image × Int)}
  {out : Nat → List Int}

/-- The equations hold of a network in the state that it has come to. -/
structure Flows (wiring : Wiring) (programs : List (Image × Int)) (out : Nat → List Int)
    (n : Network) : Prop where
  wired : n.Wired
  feedback : n.feedback = wiring.feedback
  row : n.row.Flows n.observed.toList (supply wiring n.observed.toList out) out 0 programs

/-- Every move keeps the equations. -/
theorem Flows.of_moves : Flows wiring programs out n → n.Moves p n' →
    Flows wiring programs
      (fun i => out i ++ if p = .engine i then n.row.emission i else []) n' := by
  intro h hmoves
  refine ⟨h.wired.of_moves hmoves, hmoves.feedback_eq.trans h.feedback, ?_⟩
  cases hmoves with
  | @engine i row moves =>
      refine h.row.of_moves moves ?_ ?_ h.wired.row
      · intro j
        by_cases hij : i = j
        · simp [hij]
        · simp [hij, Ne.symm hij]
      · intro j _
        cases j with
        | zero => simp [supply]
        | succ j =>
            by_cases hij : i = j
            · simp [supply, hij]
            · simp [supply, hij, Ne.symm hij]
  | @receive v c observing poll =>
      have hopen : (n.row.withLast c).first.closed = true → (n.echo v).value? = none := by
        -- Only a ring passes the value on, and its first channel is still open.
        intro hclosed
        rw [(Row.first_withLast poll).1, h.wired.first, observing] at hclosed
        have hchain : n.feedback = false := by simpa using hclosed
        simp [echo, hchain]
      have hflows : Row.Flows (n.observed.toList ++ [v])
          (supply wiring (n.observed.push v).toList out) out 0 programs
          ((n.row.withLast c).accept (n.echo v)) := by
        refine (h.row.withLast poll).accept ?_ ?_ (fun _ _ => rfl) hopen
        · cases hring : wiring.feedback <;> simp [supply, echo, h.feedback, hring]
        · intro j hj
          cases j with
          | zero => cases hj
          | succ j => rfl
      simpa using hflows
  | ended observing poll =>
      have hflows : Row.Flows n.observed.toList (supply wiring n.observed.toList out) out 0 programs
          (n.row.accept { final := true }) :=
        h.row.accept (List.append_nil _).symm (fun _ _ => rfl) (fun _ _ => rfl) fun _ => rfl
      simpa using hflows

theorem flows_startFrom (wiring : Wiring) (place : Nat) (programs : List (Image × Int)) :
    (startFrom wiring (place + 1) programs).Flows [] (supply wiring [] fun _ => []) (fun _ => [])
      (place + 1) programs := by
  induction programs generalizing place with
  | nil => rfl
  | cons program programs ih => exact ⟨Engine.tracks_start rfl, ih (place + 1)⟩

/-- At the start nothing has been emitted. -/
theorem flows_start (hphases : phases ≠ []) (hlength : images.length = phases.length) :
    Flows wiring (images.zip phases) (fun _ => []) (start wiring images phases) := by
  refine ⟨wired_start hphases hlength, rfl, ?_⟩
  cases phases with
  | nil => exact absurd rfl hphases
  | cons phase phases =>
      cases images with
      | nil => cases hlength
      | cons image images =>
          refine ⟨Engine.tracks_start ?_, flows_startFrom wiring 0 _⟩
          simp [inlet, supply, start]

/-- The equations hold of every network that can be reached. -/
theorem flows_of_follow : Flows wiring programs out n → n.follow order = some n' →
    Flows wiring programs (fun i => out i ++ n.emitted order i) n' := by
  intro h hfollow
  induction order generalizing n out with
  | nil =>
      cases hfollow
      simpa only [emitted, List.append_nil] using h
  | cons p order ih =>
      rcases exists_moves_of_follow_cons hfollow with ⟨m, hmoves, hrest⟩
      have hflows := ih (h.of_moves hmoves) hrest
      simpa only [emitted, hmoves.advance_eq, List.append_assoc] using hflows

/-- What an engine that has stopped has come to is what a run of its program alone comes to. -/
theorem run_of_tracks {place : Nat} {image : Image} {fed sent : List Int} {inlet : Channel Empty}
    {e : Engine} {outcome : Except Fault RunResult}
    (h : Engine.Tracks (launch place image) fed inlet e sent)
    (houtcome : e.outcome? = some outcome) :
    ∃ fuel, Engine.run Link.device fuel (Engine.load (Engine.defaultName place) image)
      (Link.alone fed []) = some (e, Link.alone inlet.buffer sent, .answered outcome) := by
  have hpath := h [] fun _ => rfl
  rw [List.append_nil, List.append_nil] at hpath
  exact (hpath.runOn_eq rfl).2 outcome houtcome

/-- What an engine has come to when it has stopped. -/
theorem exists_outcome {e : Engine} (h : e.status.stop?.isSome = true) :
    ∃ outcome, e.outcome? = some outcome := by
  cases hstatus : e.status with
  | idle => simp [hstatus, Status.stop?] at h
  | running => simp [hstatus, Status.stop?] at h
  | halted => exact ⟨_, by rw [Engine.outcome?, hstatus]⟩
  | ended => exact ⟨_, by rw [Engine.outcome?, hstatus]⟩
  | faulted why => exact ⟨_, by rw [Engine.outcome?, hstatus]⟩

theorem isOver_iff : n.isOver = true ↔
    n.observing = false ∧ ∀ e ∈ n.row.engines, e.status.stop?.isSome = true := by
  rw [isOver, Bool.and_eq_true, Bool.not_eq_true', List.all_eq_true]

/-- Let a network be over, however its processes have moved to get there; a `run` that finishes is one
of the ways. The observer has seen what the last engine has emitted. Every engine, by itself on a
closed channel that holds its phase and what the one before it has emitted, comes to the same state
with the same outcome after the same number of steps, emits the same values, and leaves unread what
is left unread in the network. The first engine is sent the signal, and in a ring also what has been
observed. -/
theorem kahn_equations (hphases : phases ≠ []) (hlength : images.length = phases.length) :
    (∀ fuel result, run fuel wiring images phases = some (.finished result) →
      ∃ order n, (start wiring images phases).follow order = some n ∧ n.isOver = true ∧
        result = n.result) ∧
    ∀ order n, (start wiring images phases).follow order = some n → n.isOver = true →
      n.observed.toList = (start wiring images phases).emitted order (phases.length - 1) ∧
      ∀ i image phase, images[i]? = some image → phases[i]? = some phase →
        ∃ e inlet outcome fuel, n.row.engines[i]? = some e ∧ n.row.channels[i]? = some inlet ∧
          e.outcome? = some outcome ∧
          Engine.run Link.device fuel (Engine.load (Engine.defaultName i) image)
              (Link.alone (phase :: supply wiring n.observed.toList
                ((start wiring images phases).emitted order) i) []) =
            some (e, Link.alone inlet.buffer ((start wiring images phases).emitted order i),
              .answered outcome) := by
  refine ⟨?_, ?_⟩
  · intro fuel result hrun
    rcases follow_of_run hphases hlength hrun with ⟨order, n, hfollow, -, hverdict⟩
    refine ⟨order, n, hfollow, ?_⟩
    rw [verdict] at hverdict
    split at hverdict
    · rename_i hover
      cases hverdict
      exact ⟨hover, rfl⟩
    · cases hverdict
  · intro order n hfollow hover
    have hflows := flows_of_follow (flows_start hphases hlength) hfollow
    simp only [List.nil_append] at hflows
    rcases isOver_iff.mp hover with ⟨hfinished, hstopped⟩
    refine ⟨?_, ?_⟩
    · have hdrained := (Channel.poll_eq_ended_iff.mp (hflows.wired.last hfinished)).1
      have hcount : 0 + (images.zip phases).length = phases.length - 1 + 1 := by
        have hpos := List.length_pos_iff.mpr hphases
        rw [List.length_zip]
        omega
      calc
        n.observed.toList
            = n.observed.toList ++ n.row.last.buffer := by rw [hdrained, List.append_nil]
        _ = supply wiring n.observed.toList ((start wiring images phases).emitted order)
              (0 + (images.zip phases).length) := hflows.row.observed_append
        _ = (start wiring images phases).emitted order (phases.length - 1) := by
              rw [hcount]
              rfl
    · intro i image phase himage hphase
      have hprogram : (images.zip phases)[i]? = some (image, phase) :=
        List.getElem?_zip_eq_some.mpr ⟨himage, hphase⟩
      rcases hflows.row.tracks hprogram with ⟨inlet, e, hchannel, hengine, htracks⟩
      rw [Nat.zero_add] at htracks
      rcases exists_outcome (hstopped e (List.mem_of_getElem? hengine)) with ⟨outcome, houtcome⟩
      rcases run_of_tracks htracks houtcome with ⟨fuel, hrun⟩
      exact ⟨e, inlet, outcome, fuel, hengine, hchannel, houtcome, hrun⟩

/-- A ring of two engines, each of which passes one value on. The first one is sent it once more. -/
theorem kahn_equations_ring :
    ∃ n, (start { feedback := true, signal := 7 }
        (List.replicate 2 (Image.ofIntegers [3, 9, 3, 9, 4, 9, 99])) [5, 6]).follow
        (List.replicate 4 (.engine 0) ++ List.replicate 4 (.engine 1) ++
          List.replicate 2 .observer) = some n ∧
      n.isOver = true ∧ n.observed.toList = [7] ∧
      ∃ fuel, (Engine.run Link.device fuel (Engine.load (Engine.defaultName 0)
          (Image.ofIntegers [3, 9, 3, 9, 4, 9, 99])) (Link.alone [5, 7, 7] [])).map
          (fun p => (p.2.1.inbound.buffer, p.2.1.outbound.buffer)) = some ([7], [7]) := by
  have hend : ∃ n, (start { feedback := true, signal := 7 }
        (List.replicate 2 (Image.ofIntegers [3, 9, 3, 9, 4, 9, 99])) [5, 6]).follow
        (List.replicate 4 (.engine 0) ++ List.replicate 4 (.engine 1) ++
          List.replicate 2 .observer) = some n ∧
      n.isOver = true ∧ n.observed.toList = [7] ∧
      n.row.channels.map (fun c => c.buffer) = [[7], [], []] :=
    ⟨_, rfl, rfl, rfl, rfl⟩
  rcases hend with ⟨n, hfollow, hover, hobserved, hleft⟩
  refine ⟨n, hfollow, hover, hobserved, ?_⟩
  have hequations := (kahn_equations (List.cons_ne_nil 5 [6]) rfl).2 _ n hfollow hover
  rcases hequations.2 0 _ 5 rfl rfl with ⟨e, inlet, outcome, fuel, -, hchannel, -, hrun⟩
  have hbuffer : inlet.buffer = [7] := by
    have hmap := congrArg (fun l => l[0]?) hleft
    simpa [hchannel] using hmap
  rw [hobserved, hbuffer] at hrun
  refine ⟨fuel, ?_⟩
  have hsame := congrArg (Option.map fun p => (p.2.1.inbound.buffer, p.2.1.outbound.buffer)) hrun
  exact hsame

end Network

end WordMachine
