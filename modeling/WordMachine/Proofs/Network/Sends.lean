import WordMachine.Proofs.Engine.Faults
import WordMachine.Proofs.Network.Closing
import WordMachine.Proofs.Network.Schedule

/-!
# What is sent arrives

Since each channel stays open until its sender is through (`Network.Wired`), nothing that is sent
inside a network is refused: `Row.Wired.moves_of_output` for the engines, `Network.Wired.forward` for
the observer. So a link never has anything against its engine, and an engine of a network can only
fault on an instruction of its own (`Engine.FaultsAlone`).
-/

namespace WordMachine

/-! ## Engines -/

namespace Engine

variable {e e' : Engine} {inlet inlet' outlet : Channel Empty} {δ : Delivery} {why : Fault}

/-- If the engine has faulted, then on an instruction of its own. -/
def FaultsAlone (e : Engine) : Prop :=
  ∀ why, e.status = .faulted why → why.site?.isSome = true

/-- A link complains only about a send on a closed channel. -/
theorem complaint?_link (e : Engine) (inlet : Channel Empty) (hopen : outlet.closed = false) :
    e.demand.complaint? Link.device ⟨inlet, outlet⟩ = none := by
  cases e.demand with
  | nothing e₁ answer => rfl
  | input e₁ pending =>
      simp only [Demand.complaint?, Link.device, Link.request]
      cases inlet.poll <;> rfl
  | output e₁ w =>
      simp only [Demand.complaint?, Link.device, Link.emit, Channel.send_of_open hopen]

/-- A move faults only on the instruction that the engine was about to execute. -/
theorem Passes.site_of_faulted (h : e.Passes inlet outlet e' inlet' δ)
    (hopen : outlet.closed = false) (hfault : e'.status = .faulted why) :
    why.site? = some e.machine.site := by
  rcases h.step_eq with ⟨answer, hstep⟩
  have hagrees := agrees_step h.going Link.device ⟨inlet, outlet⟩
  rw [hstep] at hagrees
  have hstatus : e'.status = (Turn.answered answer).status := hagrees.status_eq
  rw [hfault] at hstatus
  have hanswer : answer = .error why := by
    rcases answer with cause | (_ | (_ | _)) <;> cases hstatus
    rfl
  refine located_step h.going (complaint?_link e inlet hopen) ?_
  rw [hstep, hanswer]

end Engine

/-! ## Rows -/

namespace Row

variable {row row' : Row} {e e₁ : Engine} {w : Word} {i : Nat}

theorem head_channels (row : Row) : row.channels[0]? = some row.first := by
  cases row <;> rfl

/-- The channel behind an engine is closed exactly if the engine has stopped. -/
theorem Wired.behind (h : row.Wired) (he : row.engines[i]? = some e) :
    ∃ c, row.channels[i + 1]? = some c ∧ c.closed = e.status.stop?.isSome := by
  induction row generalizing i with
  | outlet c => cases he
  | stage inlet a rest ih =>
      rcases h with ⟨hclosed, hrest⟩
      cases i with
      | zero =>
          cases he
          exact ⟨rest.first, rest.head_channels, hclosed⟩
      | succ i => exact ih hrest he

/-- An engine that is about to emit a value can do so, and the channel behind it takes the value. -/
theorem Wired.moves_of_output (h : row.Wired) (he : row.engines[i]? = some e)
    (hdemand : e.demand = .output e₁ w) :
    ∃ c c' row', row.channels[i + 1]? = some c ∧ c.send w.toInt = .ok (c', none) ∧
      Moves i row row' ∧ row'.channels[i + 1]? = some c' := by
  induction row generalizing i with
  | outlet c => cases he
  | stage inlet a rest ih =>
      rcases h with ⟨hclosed, hrest⟩
      cases i with
      | succ i =>
          rcases ih hrest he with ⟨c, c', rest', hchannel, hsend, hmoves, hchannel'⟩
          exact ⟨c, c', _, hchannel, hsend, .behind hmoves, hchannel'⟩
      | zero =>
          cases he
          rcases Engine.eq_of_demand_eq_output hdemand with ⟨i, m, hgoing, -, -, he₁⟩
          have hopen : rest.first.closed = false := by simpa [hgoing] using hclosed
          have hrunning : e₁.status = .running := he₁ ▸ Engine.status_executing e i
          have hdelivery : (e₁.settle (.ok ())).1.delivery (some w.toInt) = { value? := w.toInt } := by
            simp [Engine.delivery, Engine.settle, Engine.withMachine, Engine.count, hrunning,
              Status.stop?]
          have haccept : (rest.accept ((e₁.settle (.ok ())).1.delivery (some w.toInt))).first =
              { rest.first with buffer := rest.first.buffer ++ [w.toInt] } := by
            simp [hdelivery, Channel.accept, hopen]
          refine ⟨rest.first, _, _, rest.head_channels, Channel.send_of_open hopen _,
            .here (.send hgoing hdemand hopen), ?_⟩
          rw [← haccept]
          exact head_channels _

/-- No engine of a row comes to fault on anything but an instruction of its own. -/
theorem Wired.faultsAlone_of_moves (h : row.Wired) (hmoves : Moves i row row')
    (halone : ∀ e ∈ row.engines, e.FaultsAlone) : ∀ e ∈ row'.engines, e.FaultsAlone := by
  induction hmoves with
  | @here e e' inlet inlet' rest δ passes =>
      have hopen : rest.first.closed = false := by simpa [passes.going] using h.1
      intro a ha
      rw [engines, engines_accept] at ha
      rcases List.mem_cons.mp ha with rfl | ha
      · intro why hwhy
        rw [passes.site_of_faulted hopen hwhy]
        rfl
      · exact halone a (List.mem_cons_of_mem e ha)
  | @behind e inlet rest rest' i moves ih =>
      have hothers : ∀ a ∈ rest.engines, a.FaultsAlone :=
        fun a ha => halone a (List.mem_cons_of_mem e ha)
      intro a ha
      rcases List.mem_cons.mp ha with rfl | ha
      · exact halone _ List.mem_cons_self
      · exact ih h.2 hothers a ha

end Row

/-! ## Networks -/

namespace Network

variable {n n' : Network} {p : Process} {order : List Process} {wiring : Wiring}
  {images : List Image} {phases : List Int} {v : Int} {c : Channel Empty}

/-- The observer passes a value on to an open channel. -/
theorem Wired.forward (h : n.Wired) (hring : n.feedback = true) (hobserving : n.observing = true)
    (hpoll : n.row.last.poll = .value v c) :
    ∃ c' n', (n.row.withLast c).first.send v = .ok (c', none) ∧ n.Moves .observer n' ∧
      n'.row.first = c' := by
  have hopen : (n.row.withLast c).first.closed = false := by
    rw [(Row.first_withLast hpoll).1, h.first, hring, hobserving]
    rfl
  refine ⟨_, _, Channel.send_of_open hopen v, .receive hobserving hpoll, ?_⟩
  simp [echo, hring, Channel.accept, hopen]

/-- The channels are as they should be, and no engine has faulted on a send. -/
structure Undisturbed (n : Network) : Prop where
  wired : n.Wired
  alone : ∀ e ∈ n.row.engines, e.FaultsAlone

theorem Undisturbed.of_moves (h : n.Undisturbed) (hmoves : n.Moves p n') : n'.Undisturbed := by
  refine ⟨h.wired.of_moves hmoves, ?_⟩
  cases hmoves with
  | engine moves => exact h.wired.row.faultsAlone_of_moves moves h.alone
  | receive observing poll => simpa using h.alone
  | ended observing poll => simpa using h.alone

theorem faultsAlone_startFrom (wiring : Wiring) (place : Nat) (programs : List (Image × Int)) :
    ∀ e ∈ (startFrom wiring place programs).engines, e.FaultsAlone := by
  induction programs generalizing place with
  | nil =>
      intro e he
      cases he
  | cons program programs ih =>
      intro e he
      rcases List.mem_cons.mp he with rfl | he
      · intro why hwhy
        cases hwhy
      · exact ih (place + 1) e he

theorem undisturbed_of_follow (hphases : phases ≠ []) (hlength : images.length = phases.length) :
    (start wiring images phases).follow order = some n → n.Undisturbed :=
  follow_invariant Undisturbed (fun _ _ _ h hmoves => h.of_moves hmoves)
    ⟨wired_start hphases hlength, faultsAlone_startFrom wiring 0 _⟩

/-- Whatever is sent inside a network is accepted, however its processes have moved so far. The channel
behind an engine is closed exactly if the engine has stopped; the channel into the first engine is
closed in a chain, and in a ring exactly if the observer has finished. So an engine that is about to
emit a value sends it in its next move, and the observer of a ring passes every value on. No engine
ever faults because a channel is closed. -/
theorem sends_accepted (hphases : phases ≠ []) (hlength : images.length = phases.length)
    (hfollow : (start wiring images phases).follow order = some n) :
    (∀ i e, n.row.engines[i]? = some e →
      ∃ c, n.row.channels[i + 1]? = some c ∧ c.closed = e.status.stop?.isSome) ∧
    (∃ c, n.row.channels[0]? = some c ∧ c.closed = (!wiring.feedback || !n.observing)) ∧
    (∀ i e e₁ w, n.row.engines[i]? = some e → e.demand = .output e₁ w →
      ∃ c c' n', n.row.channels[i + 1]? = some c ∧ c.send w.toInt = .ok (c', none) ∧
        n.move (.engine i) = some n' ∧ n'.row.channels[i + 1]? = some c') ∧
    (wiring.feedback = true → n.observing = true → ∀ v c, n.row.last.poll = .value v c →
      ∃ c' n', (n.row.withLast c).first.send v = .ok (c', none) ∧
        n.move .observer = some n' ∧ n'.row.channels[0]? = some c') ∧
    ∀ e ∈ n.row.engines, ∀ name, e.status ≠ .faulted (.channelClosed name) := by
  have hsound := undisturbed_of_follow hphases hlength hfollow
  have hfeedback : n.feedback = wiring.feedback := feedback_of_follow hfollow
  refine ⟨?_, ?_, ?_, ?_, ?_⟩
  · intro i e he
    exact hsound.wired.row.behind he
  · rw [← hfeedback]
    exact ⟨n.row.first, n.row.head_channels, hsound.wired.first⟩
  · intro i e e₁ w he hdemand
    rcases hsound.wired.row.moves_of_output he hdemand with
      ⟨c, c', row', hchannel, hsend, hmoves, hchannel'⟩
    exact ⟨c, c', _, hchannel, hsend, move_of_moves (.engine hmoves), hchannel'⟩
  · intro hring hobserving v c hpoll
    rcases hsound.wired.forward (hfeedback.trans hring) hobserving hpoll with
      ⟨c', n', hsend, hmoves, hfirst⟩
    refine ⟨c', n', hsend, move_of_moves hmoves, ?_⟩
    rw [← hfirst]
    exact n'.row.head_channels
  · intro e he name hfault
    have hsite := hsound.alone e he _ hfault
    cases hsite

/-- The observer passes a value on to an engine that has halted and closed the channel behind it. -/
theorem sends_accepted_ring :
    ∃ n, (start { feedback := true, signal := 7 }
        (List.replicate 2 (Image.ofIntegers [3, 9, 3, 9, 4, 9, 99])) [5, 6]).follow
        (List.replicate 4 (.engine 0) ++ List.replicate 3 (.engine 1)) = some n ∧
      (n.row.engines.map fun e => e.status) = [.halted, .running] ∧
      (n.row.channels.map fun c => (c.buffer, c.closed)) = [([], false), ([], true), ([7], false)] ∧
      ∃ n', n.move .observer = some n' ∧
        n'.row.channels[0]?.map (fun c => c.buffer) = some [7] := by
  have hend : ∃ n, (start { feedback := true, signal := 7 }
        (List.replicate 2 (Image.ofIntegers [3, 9, 3, 9, 4, 9, 99])) [5, 6]).follow
        (List.replicate 4 (.engine 0) ++ List.replicate 3 (.engine 1)) = some n ∧
      (n.row.engines.map fun e => e.status) = [.halted, .running] ∧
      (n.row.channels.map fun c => (c.buffer, c.closed)) = [([], false), ([], true), ([7], false)] ∧
      n.observing = true ∧ ∃ c, n.row.last.poll = .value 7 c ∧
        (n.row.withLast c).first.buffer = [] ∧ (n.row.withLast c).first.closed = false :=
    ⟨_, rfl, rfl, rfl, rfl, _, rfl, rfl, rfl⟩
  rcases hend with ⟨n, hfollow, hstatus, hchannels, hobserving, c, hpoll, hempty, hopen⟩
  refine ⟨n, hfollow, hstatus, hchannels, ?_⟩
  have hsends := sends_accepted (List.cons_ne_nil 5 [6]) rfl hfollow
  rcases hsends.2.2.2.1 rfl hobserving 7 c hpoll with ⟨c', n', hsend, hmove, hfirst⟩
  rw [Channel.send_of_open hopen, hempty] at hsend
  cases hsend
  exact ⟨n', hmove, congrArg (Option.map fun c => c.buffer) hfirst⟩

end Network

end WordMachine
