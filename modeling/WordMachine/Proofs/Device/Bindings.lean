import WordMachine.Device.Console
import WordMachine.Proofs.Device.Coupling
import WordMachine.Proofs.Network.Sends
import WordMachine.Proofs.Text.Numeral

/-!
# Devices that can stand for each other

A program can be given the same words by a script, over a channel that has been closed behind them, or
as lines of text among which others are no words. It makes no difference, except that a script treats a
further request as a fault and the other two treat it as the end.
-/

namespace WordMachine

/-! ## Links -/

namespace Channel

variable {c : Channel Empty}

def sendAll (c : Channel Empty) : List Int → Channel Empty
  | [] => c
  | value :: later =>
    match c.send value with
    | .ok (c, _) => c.sendAll later
    | .error _ => c.sendAll later

theorem sendAll_of_open (h : c.closed = false) (values : List Int) :
    c.sendAll values = { c with buffer := c.buffer ++ values } := by
  induction values generalizing c with
  | nil => simp [sendAll]
  | cons value later ih => simp [sendAll, send_of_open h, ih, h]

end Channel

namespace Link

/-- A link whose inbound channel was sent some values and closed. -/
def supplied (values : List Int) (inbound outbound : String := "channel") : Link :=
  { inbound := (Channel.sendAll { name := inbound } values).close.1
    outbound := { name := outbound } }

theorem supplied_eq (values : List Int) (inbound outbound : String) :
    supplied values inbound outbound =
      ⟨{ name := inbound, buffer := values, closed := true }, { name := outbound }⟩ := by
  simp [supplied, Channel.sendAll_of_open, Channel.fst_close]

/-- No more will be sent to the engine, and what it sends is accepted. -/
structure Fed (l : Link) : Prop where
  closed : l.inbound.closed = true
  opened : l.outbound.closed = false

theorem Fed.request_eq {l : Link} (h : l.Fed) :
    l.request = match l.inbound.buffer with
      | [] => (.endOfStream l.inbound.name, l)
      | value :: buffer => (.value value, { l with inbound := { l.inbound with buffer } }) := by
  simp only [request, Channel.poll]
  cases hbuffer : l.inbound.buffer with
  | nil => simp [h.closed]
  | cons value buffer => rfl

theorem Fed.emit_eq {l : Link} (h : l.Fed) (value : Int) :
    l.emit value =
      (.ok (), { l with outbound := { l.outbound with buffer := l.outbound.buffer ++ [value] } }) := by
  simp only [emit, Channel.send_of_open h.opened]

end Link

/-! ## Scripts -/

namespace Script

open Engine

variable {s : Script} {l : Link} {n : Nat} {e : Engine}

/-- A script of `n` words and a link have the same words left and have taken the same values. -/
structure Beside (n : Nat) (s : Script) (l : Link) : Prop where
  supplied_eq : s.supplied = n
  fed : l.Fed
  left_eq : l.inbound.buffer = s.remaining
  out_eq : l.outbound.buffer = s.outputs.toList

theorem beside_ofList (values : List Int) (inbound outbound : String) :
    Beside values.length (ofList values) (Link.supplied values inbound outbound) := by
  rw [Link.supplied_eq]
  exact ⟨rfl, ⟨rfl, rfl⟩, rfl, rfl⟩

theorem couples (n : Nat) : Script.device.Couples Link.device (Beside n) where
  request := by
    rintro ⟨supplied, remaining, outputs⟩ l h halike
    have hfed := h.fed
    have hleft : l.inbound.buffer = remaining := h.left_eq
    simp only [device, request, Link.device, hfed.request_eq, hleft] at halike ⊢
    cases remaining with
    | nil => cases halike
    | cons value remaining => exact ⟨h.supplied_eq, ⟨hfed.closed, hfed.opened⟩, rfl, h.out_eq⟩
  emit := by
    intro s l w h
    have hemit := h.fed.emit_eq w.toInt
    have hout : l.outbound.buffer ++ [w.toInt] = (s.outputs.push w.toInt).toList := by
      rw [h.out_eq, Array.toList_push]
    simp only [Link.device, hemit]
    exact ⟨rfl, h.supplied_eq, ⟨h.fed.closed, h.fed.opened⟩, h.left_eq, hout⟩

/-- Script and link part when nothing is left. Then the one fails and the other has ended. -/
theorem Beside.of_parts (h : s.Beside n l) (hparts : e.Parts Script.device Link.device s l) :
    ∃ e₁ : Engine, e.step Script.device s =
        (e₁.fail (.inputExhausted n), s, .answered (.error (.inputExhausted n))) ∧
      e.step Link.device l = (e₁.finish .endOfStream, l, .answered (.ok (some .endOfStream))) := by
  rcases hparts with ⟨e₁, pending, hdemand, hdiffer⟩
  rcases s with ⟨supplied, remaining, outputs⟩
  have hleft : l.inbound.buffer = remaining := h.left_eq
  have hsupplied : supplied = n := h.supplied_eq
  have hlink := h.fed.request_eq
  rw [hleft] at hlink
  cases remaining with
  | cons value remaining =>
      have halike : (Script.device.request ⟨supplied, value :: remaining, outputs⟩).1.Alike
          (Link.device.request l).1 := by
        simp only [device, request, Link.device, hlink]
        exact .value rfl
      exact absurd halike hdiffer
  | nil =>
      refine ⟨e₁, ?_, ?_⟩
      · rw [step_eq_meet, hdemand, hsupplied]
        rfl
      · rw [step_eq_meet, hdemand]
        simp only [Demand.meet, Link.device, hlink]
        rfl

/-- A script neither keeps an engine waiting nor lets it end. -/
theorem request_ne (s : Script) : (Script.device.request s).1 ≠ .wait ∧
    ∀ source, (Script.device.request s).1 ≠ .endOfStream source := by
  rcases s with ⟨supplied, remaining, outputs⟩
  cases remaining with
  | nil => exact ⟨Reply.noConfusion, fun _ => Reply.noConfusion⟩
  | cons value remaining => exact ⟨Reply.noConfusion, fun _ => Reply.noConfusion⟩

end Script

/-! ## Consoles -/

namespace Console

variable {c : Console} {l : Link}

def words (lines : List (List Char)) : List Word :=
  lines.filterMap fun line => (readLine line).toOption

/-- A printed line that is neither a prompt nor a request to try again. -/
def isOutput (line : String) : Bool :=
  line ≠ prompt && line ≠ retry

def outputs (printed : Array String) : List String :=
  printed.toList.filter isOutput

theorem outputs_push (printed : Array String) (line : String) :
    outputs (printed.push line) = outputs printed ++ if isOutput line then [line] else [] := by
  simp only [outputs, Array.toList_push, List.filter_append, List.filter_cons, List.filter_nil]

/-- Numerals are not mistaken for anything else that a console prints. -/
theorem isOutput_ofInteger (value : Int) : isOutput (Text.ofInteger value) = true := by
  have hnumeral := Text.integer?_ofInteger value
  have hprompt : Text.ofInteger value ≠ prompt := by
    intro h
    rw [h] at hnumeral
    cases hnumeral
  have hretry : Text.ofInteger value ≠ retry := by
    intro h
    rw [h] at hnumeral
    cases hnumeral
  simp [isOutput, hprompt, hretry]

/-- What a console replies that has the given words left. -/
def reply : List Word → Reply
  | [] => .endOfStream source
  | word :: _ => .value word.toInt

/-- Lines without a word cost nothing but a request to try again. -/
theorem listen_eq (printed : Array String) (lines : List (List Char)) :
    ∃ c, listen printed lines = (reply (words lines), c) ∧ words c.lines = (words lines).tail ∧
      outputs c.printed = outputs printed := by
  induction lines generalizing printed with
  | nil => exact ⟨_, rfl, rfl, rfl⟩
  | cons line rest ih =>
      cases hline : readLine line with
      | ok word =>
          have hwords : words (line :: rest) = word :: words rest := by
            simp [words, hline, Except.toOption]
          refine ⟨⟨rest, true, printed⟩, ?_, ?_, rfl⟩
          · simp only [listen, hline, hwords, reply]
          · rw [hwords, List.tail_cons]
      | error why =>
          have hwords : words (line :: rest) = words rest := by
            simp [words, hline, Except.toOption]
          have hprinted : outputs (printed.push retry) = outputs printed := by
            rw [outputs_push]
            exact List.append_nil _
          rcases ih (printed.push retry) with ⟨c, hlisten, hleft, hout⟩
          refine ⟨c, ?_, ?_, hout.trans hprinted⟩
          · simp only [listen, hline, hwords, hlisten]
          · rw [hwords, hleft]

/-- A console and a link have the same words left and have taken the same values. -/
structure Beside (c : Console) (l : Link) : Prop where
  fed : l.Fed
  left_eq : l.inbound.buffer = (words c.lines).map Int64.toInt
  out_eq : outputs c.printed = l.outbound.buffer.map Text.ofInteger

theorem Beside.alike (h : c.Beside l) : (device.request c).1.Alike (Link.device.request l).1 := by
  rcases listen_eq (c.printed.push prompt) c.lines with ⟨c', hlisten, -, -⟩
  have hleft := h.left_eq
  simp only [device, request, Link.device, h.fed.request_eq, hlisten, hleft]
  cases words c.lines with
  | nil => exact .endOfStream _ _
  | cons word left => exact .value rfl

theorem couples : device.Couples Link.device Beside where
  request := by
    intro c l h _
    rcases listen_eq (c.printed.push prompt) c.lines with ⟨c', hlisten, htail, hout⟩
    have hleft := h.left_eq
    have hprinted : outputs c'.printed = l.outbound.buffer.map Text.ofInteger := by
      rw [hout, outputs_push, ← h.out_eq]
      exact List.append_nil _
    simp only [device, request, Link.device, h.fed.request_eq, hlisten, hleft]
    cases hwords : words c.lines with
    | nil =>
        have hempty : l.inbound.buffer = (words c'.lines).map Int64.toInt := by
          rw [htail, hleft, hwords]
          rfl
        exact ⟨h.fed, hempty, hprinted⟩
    | cons word left =>
        have hrest : left.map Int64.toInt = (words c'.lines).map Int64.toInt := by
          rw [htail, hwords]
          rfl
        exact ⟨⟨h.fed.closed, h.fed.opened⟩, hrest, hprinted⟩
  emit := by
    intro c l w h
    have hemit := h.fed.emit_eq w.toInt
    have hout : outputs (c.printed.push (Text.ofInteger w.toInt)) =
        (l.outbound.buffer ++ [w.toInt]).map Text.ofInteger := by
      rw [outputs_push, isOutput_ofInteger, h.out_eq, List.map_append]
      rfl
    simp only [Link.device, hemit]
    exact ⟨rfl, ⟨h.fed.closed, h.fed.opened⟩, h.left_eq, hout⟩

theorem beside_ofText {text : String} {ws : List Word} (h : words (Text.lines text.toList) = ws)
    (inbound outbound : String) :
    (ofText text).Beside (Link.supplied (ws.map Int64.toInt) inbound outbound) := by
  rw [Link.supplied_eq]
  refine ⟨⟨rfl, rfl⟩, ?_, rfl⟩
  rw [← h]
  rfl

end Console

/-! ## Runs -/

namespace Engine

variable {σ : Type} {d : Device σ} {e : Engine} {s : σ} {n : Nat} {why : Fault}
  {pending : Pending}

/-- A step waits only if the device has no answer yet. -/
theorem request_of_waiting (h : (e.step d s).2.2 = .waiting pending) : (d.request s).1 = .wait := by
  have hdemand := demand_of_waiting h
  rw [step_eq_meet, hdemand] at h
  simp only [Demand.meet] at h
  cases hreply : (d.request s).1 with
  | wait => rfl
  | _ =>
      rw [hreply] at h
      cases h

/-- A step ends an engine only if the device says that the stream has ended. -/
theorem request_of_ended (h : (e.step d s).2.2 = .answered (.ok (some .endOfStream))) :
    ∃ source, (d.request s).1 = .endOfStream source := by
  have hcomplete : ∀ (a : Engine) (effect : Effect), (a.complete effect).2 ≠ .ok (some .endOfStream) := by
    intro a effect hend
    cases effect <;> cases hend
  cases hstop : e.status.stop? with
  | some how =>
      rw [step_of_stopped hstop] at h
      cases h
  | none =>
      rw [step_eq_meet] at h
      cases hdemand : e.demand with
      | nothing e₁ answer =>
          rw [hdemand] at h
          cases h
          rcases eq_of_demand_eq_nothing hstop hdemand with
            ⟨why, -, hanswer, -⟩ | ⟨i, m, effect, -, -, -, hanswer⟩
          · cases hanswer
          · exact absurd hanswer.symm (hcomplete _ effect)
      | output e₁ w =>
          rw [hdemand] at h
          simp only [Demand.meet] at h
          cases hreaction : (d.emit w.toInt s).1 <;> rw [hreaction] at h <;> cases h
      | input e₁ pending =>
          rw [hdemand] at h
          simp only [Demand.meet] at h
          cases hreply : (d.request s).1 with
          | endOfStream source => exact ⟨source, rfl⟩
          | value v =>
              rw [hreply] at h
              simp only [resume, Turn.answered.injEq] at h
              exact absurd h (hcomplete _ _)
          | fault why =>
              rw [hreply] at h
              cases h
          | wait =>
              rw [hreply] at h
              cases h

/-- Over an open channel an engine fails only on an instruction. -/
theorem site_of_error {l : Link} (hfed : l.Fed) (hgoing : e.status.stop? = none)
    (h : (e.step Link.device l).2.2 = .answered (.error why)) : why.site? = some e.machine.site :=
  located_step hgoing (complaint?_link e l.inbound hfed.opened) h

/-- What a run on a script of `n` words and a run on another device come to that are alike but for the
lack of input: then the one fails and the other ends. -/
structure Concurs (n : Nat) (e₁ e₂ : Engine) (o₁ o₂ : Except Fault RunResult) : Prop where
  machine_eq : e₁.machine = e₂.machine
  steps_eq : e₁.steps = e₂.steps
  dry_iff : (∃ m, o₁ = .error (.inputExhausted m)) ↔ ∃ k, o₂ = .ok ⟨.endOfStream, k⟩
  dry : ∀ m, o₁ = .error (.inputExhausted m) →
    m = n ∧ e₁.status = .faulted (.inputExhausted n) ∧ e₂.status = .ended
  same : (∀ m, o₁ ≠ .error (.inputExhausted m)) → e₁ = e₂ ∧ o₁ = o₂

theorem concurs_self {o : Except Fault RunResult} (hdry : ∀ m, o ≠ .error (.inputExhausted m))
    (hend : ∀ k, o ≠ .ok ⟨.endOfStream, k⟩) (n : Nat) (e : Engine) : Concurs n e e o o where
  machine_eq := rfl
  steps_eq := rfl
  dry_iff := by
    constructor
    · rintro ⟨m, hm⟩
      exact absurd hm (hdry m)
    · rintro ⟨k, hk⟩
      exact absurd hk (hend k)
  dry := by
    intro m hm
    exact absurd hm (hdry m)
  same := fun _ => ⟨rfl, rfl⟩

theorem concurs_dry (n : Nat) (e : Engine) :
    Concurs n (e.fail (.inputExhausted n)) (e.finish .endOfStream) (.error (.inputExhausted n))
      (.ok ⟨.endOfStream, e.steps⟩) where
  machine_eq := rfl
  steps_eq := rfl
  dry_iff := ⟨fun _ => ⟨_, rfl⟩, fun _ => ⟨_, rfl⟩⟩
  dry := by
    intro m hm
    cases hm
    exact ⟨rfl, rfl, rfl⟩
  same := by
    intro h
    exact absurd rfl (h n)

/-- The last step of a run on a script, if it is the same over a channel: it neither waits nor ends, and
does not fail for lack of input. -/
theorem concurs_of_step {e' : Engine} {s s' : Script} {l l' : Link} {turn : Turn (Option Ending)}
    {result : Turn RunResult} (hfed : l.Fed) (hstep : e.step Script.device s = (e', s', turn))
    (hstep' : e.step Link.device l = (e', l', turn)) (hclosing : turn.closing? e'.steps = some result)
    (n : Nat) : ∃ o, result = .answered o ∧ Concurs n e' e' o o := by
  rcases Script.request_ne s with ⟨hwait, hend⟩
  rcases turn with (why | (_ | (_ | _))) | pending
  · cases hclosing
    refine ⟨.error why, rfl, concurs_self ?_ (by rintro k ⟨⟩) n e'⟩
    rintro m ⟨⟩
    cases hstop : e.status.stop? with
    | some how =>
        rw [step_of_stopped hstop] at hstep'
        cases hstep'
    | none =>
        have hsite := site_of_error hfed hstop (congrArg (fun r => r.2.2) hstep')
        cases hsite
  · cases hclosing
  · cases hclosing
    refine ⟨_, rfl, concurs_self (by rintro m ⟨⟩) (by rintro k ⟨⟩) n e'⟩
  · rcases request_of_ended (congrArg (fun r => r.2.2) hstep) with ⟨source, hsource⟩
    exact absurd hsource (hend source)
  · exact absurd (request_of_waiting (congrArg (fun r => r.2.2) hstep)) hwait

end Engine

open Engine in
/-- A run on a script and one over a channel with the same words. -/
theorem Script.Beside.runOn {n : Nat} {s : Script} {l : Link} (h : s.Beside n l) (e : Engine)
    (fuel : Nat) :
    (Engine.runOn Script.device fuel (e.step Script.device s) = none ∧
      Engine.runOn Link.device fuel (e.step Link.device l) = none) ∨
    ∃ e₁ e₂ s' l' o₁ o₂,
      Engine.runOn Script.device fuel (e.step Script.device s) = some (e₁, s', .answered o₁) ∧
      Engine.runOn Link.device fuel (e.step Link.device l) = some (e₂, l', .answered o₂) ∧
      Concurs n e₁ e₂ o₁ o₂ ∧ s'.Beside n l' := by
  have htogether := (Script.couples n).runOn (e := e) h fuel
  generalize Engine.runOn Script.device fuel (e.step Script.device s) = r at htogether ⊢
  generalize Engine.runOn Link.device fuel (e.step Link.device l) = r' at htogether ⊢
  cases htogether with
  | running => exact .inl ⟨rfl, rfl⟩
  | stopped before after step step' closing =>
      rcases concurs_of_step before.fed step step' closing n with ⟨o, rfl, hconcurs⟩
      exact .inr ⟨_, _, _, _, o, o, rfl, rfl, hconcurs, after⟩
  | parted fuel before parts =>
      rcases before.of_parts parts with ⟨e₁, hscript, hlink⟩
      rw [hscript, hlink]
      refine .inr ⟨_, _, _, _, _, _, runOn_of_closing rfl fuel, runOn_of_closing rfl fuel,
        concurs_dry n e₁, before⟩

namespace Engine

/-- The bindings are interchangeable. Let a text hold the words `ws`, among lines that are no words.
Then no run stops within the given fuel: neither on the script `ws`, nor over a channel that was sent
`ws` and closed, nor on a console with the text; or all three stop. The channel and the console bring
the engine to the same state with the same outcome. So does the script, unless the input did not
suffice: then the script makes it fail where the others make it end. The values emitted are the same on
all three; the console prints them in decimal. -/
theorem bindings_agree (name : String) (trace : Bool) (image : Image) (ws : List Word) (text : String)
    (inbound outbound : String) (hwords : Console.words (Text.lines text.toList) = ws) (fuel : Nat) :
    let e := Engine.load name image trace
    let scripted := e.run Script.device fuel (Script.ofList (ws.map Int64.toInt))
    let linked := e.run Link.device fuel (Link.supplied (ws.map Int64.toInt) inbound outbound)
    let typed := e.run Console.device fuel (Console.ofText text)
    (scripted = none ∧ linked = none ∧ typed = none) ∨
    ∃ e₁ e₂ s l c o₁ o₂, scripted = some (e₁, s, .answered o₁) ∧
      linked = some (e₂, l, .answered o₂) ∧ typed = some (e₂, c, .answered o₂) ∧
      Concurs ws.length e₁ e₂ o₁ o₂ ∧ s.outputs.toList = l.outbound.buffer ∧
      Console.outputs c.printed = l.outbound.buffer.map Text.ofInteger := by
  intro e scripted linked typed
  have hscript := Script.beside_ofList (ws.map Int64.toInt) inbound outbound
  have hconsole := Console.beside_ofText hwords inbound outbound
  have hruns := hscript.runOn e.begin fuel
  rw [List.length_map] at hruns
  have htyped := Console.couples.runOn_of_alike (e := e.begin) (fun _ _ => Console.Beside.alike)
    hconsole fuel
  rcases hruns with ⟨hscripted, hlinked⟩ | ⟨e₁, e₂, s, l, o₁, o₂, hscripted, hlinked, hconcurs, hbeside⟩
  · rcases htyped with ⟨htyped, -⟩ | ⟨e₃, c, l', result, -, hlinked', -⟩
    · exact .inl ⟨hscripted, hlinked, htyped⟩
    · rw [hlinked] at hlinked'
      cases hlinked'
  · rcases htyped with ⟨-, hlinked'⟩ | ⟨e₃, c, l', result, htyped, hlinked', hbeside'⟩
    · rw [hlinked] at hlinked'
      cases hlinked'
    · rw [hlinked] at hlinked'
      cases hlinked'
      exact .inr ⟨e₁, e₂, s, l, c, o₁, o₂, hscripted, hlinked, htyped, hconcurs,
        hbeside.out_eq.symm, hbeside'.out_eq⟩

/-- A program that hands on two numbers and asks for a third. One line in between is no number. -/
theorem bindings_agree_echo :
    ∃ e₁ e₂ s l c o₁ o₂,
      (load "engine" (Image.ofIntegers [3, 7, 4, 7, 1105, 1, 0])).run Script.device 6
        (Script.ofList [5, -7]) = some (e₁, s, .answered o₁) ∧
      (load "engine" (Image.ofIntegers [3, 7, 4, 7, 1105, 1, 0])).run Link.device 6
        (Link.supplied [5, -7]) = some (e₂, l, .answered o₂) ∧
      (load "engine" (Image.ofIntegers [3, 7, 4, 7, 1105, 1, 0])).run Console.device 6
        (Console.ofText "5\nfive\n -7\n") = some (e₂, c, .answered o₂) ∧
      o₁ = .error (.inputExhausted 2) ∧ o₂ = .ok ⟨.endOfStream, 6⟩ ∧ l.outbound.buffer = [5, -7] ∧
      Concurs 2 e₁ e₂ o₁ o₂ ∧ Console.outputs c.printed = l.outbound.buffer.map Text.ofInteger := by
  rcases bindings_agree "engine" false (Image.ofIntegers [3, 7, 4, 7, 1105, 1, 0]) [5, -7]
    "5\nfive\n -7\n" "channel" "channel" (by decide) 6 with
    ⟨hnone, -⟩ | ⟨e₁, e₂, s, l, c, o₁, o₂, hscripted, hlinked, htyped, hconcurs, -, hout⟩
  · cases hnone
  · refine ⟨e₁, e₂, s, l, c, o₁, o₂, hscripted, hlinked, htyped, ?_, ?_, ?_, hconcurs, hout⟩
    · cases hscripted
      rfl
    · cases hlinked
      rfl
    · cases hlinked
      rfl

end Engine

end WordMachine
