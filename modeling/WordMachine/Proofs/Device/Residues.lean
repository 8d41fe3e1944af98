import Mathlib.Data.Int.ModEq
import Mathlib.Data.List.Forall2
import WordMachine.Proofs.Device.Mirror
import WordMachine.Proofs.Device.Session

/-!
# Residues

A word represents an integer modulo `2 ^ 64`, and an engine gets to see nothing but words: those of the
image that it is loaded with, and those that its inputs are reduced to. So scripts mirror each other if
their inputs are congruent one by one (`Script.mirrors_congruent`), and so do links
(`Link.mirrors_congruent`). On the latter a session comes to the same whatever is done with it, as long as
the values sent to it are congruent (`Session.attend_congruent`).
-/

namespace WordMachine

/-! ## Congruent integers -/

namespace Word

/-- Two integers are the same modulo `2 ^ 64`. -/
def Congruent (v v' : Int) : Prop :=
  v ≡ v' [ZMOD 2 * limit]

instance (v v' : Int) : Decidable (Congruent v v') := by
  unfold Congruent; infer_instance

variable {v v' : Int}

theorem Congruent.refl (v : Int) : Congruent v v :=
  Int.ModEq.refl v

theorem Congruent.symm (h : Congruent v v') : Congruent v' v :=
  Int.ModEq.symm h

/-- Integers are congruent if and only if the same word represents them. -/
theorem ofInt_eq_iff : ofInt v = ofInt v' ↔ Congruent v v' := by
  have hsize : ((Int64.size : Nat) : Int) = 2 * limit := rfl
  rw [← Int64.toInt_inj, Int64.toInt_ofInt, Int64.toInt_ofInt, Congruent, Int.ModEq, ← hsize]
  constructor
  · intro h
    rw [← Int.bmod_emod (m := Int64.size), h, Int.bmod_emod]
  · intro h
    rw [← Int.emod_bmod v, h, Int.emod_bmod]

end Word

/-- The lists are of the same length, and congruent integer by integer. -/
abbrev Congruent : List Int → List Int → Prop :=
  List.Forall₂ Word.Congruent

theorem Congruent.refl (values : List Int) : Congruent values values :=
  List.forall₂_same.mpr fun v _ => Word.Congruent.refl v

theorem Congruent.symm {values values' : List Int} (h : Congruent values values') :
    Congruent values' values :=
  List.Forall₂.flip (h.imp fun _ _ => Word.Congruent.symm)

/-- Congruent programs are the same image. -/
theorem Image.ofIntegers_congruent {values values' : List Int} (h : Congruent values values') :
    Image.ofIntegers values = Image.ofIntegers values' := by
  refine congrArg List.toArray ?_
  induction h with
  | nil => rfl
  | cons hv hrest ih => rw [List.map_cons, List.map_cons, ih, Word.ofInt_eq_iff.mpr hv]

/-! ## Scripts -/

namespace Script

inductive Congruent : Script → Script → Prop where
  | mk {supplied : Nat} {remaining remaining' : List Int} {outputs : Array Int}
      (inputs : WordMachine.Congruent remaining remaining') :
      Congruent ⟨supplied, remaining, outputs⟩ ⟨supplied, remaining', outputs⟩

/-- A script reduces its values when it is made. -/
theorem congruent_ofList {ws ws' : List Int} (h : WordMachine.Congruent ws ws') :
    (ofList ws).Congruent (ofList ws') := by
  rw [ofList, ofList, h.length_eq]
  exact .mk h

/-- An engine reduces every value that it is given, so it reacts alike to congruent ones. -/
theorem mirrors_congruent : Script.device.Mirrors Script.device Script.Congruent where
  request := by
    rintro _ _ ⟨hinputs⟩ -
    cases hinputs with
    | nil => exact .mk .nil
    | cons hv hrest => exact .mk hrest
  emit := by
    rintro _ _ w ⟨hinputs⟩
    exact ⟨rfl, .mk hinputs⟩
  alike := by
    rintro _ _ ⟨hinputs⟩
    cases hinputs with
    | nil => exact .fault _
    | cons hv hrest => exact .value (Word.ofInt_eq_iff.mpr hv)

end Script

/-! ## Channels -/

namespace Channel

/-- The buffered values are congruent; all else is the same. -/
inductive Congruent : Channel Empty → Channel Empty → Prop where
  | mk {name : String} {buffer buffer' : List Int} {waiting : List Empty} {closed : Bool}
      (values : WordMachine.Congruent buffer buffer') :
      Congruent ⟨name, buffer, waiting, closed⟩ ⟨name, buffer', waiting, closed⟩

inductive Poll.Congruent : Poll Empty → Poll Empty → Prop where
  | value {v v' : Int} {rest rest' : Channel Empty} (values : Word.Congruent v v')
      (rests : rest.Congruent rest') : Congruent (.value v rest) (.value v' rest')
  | ended : Congruent .ended .ended
  | empty : Congruent .empty .empty

variable {c c' : Channel Empty} {δ δ' : Delivery}

theorem Congruent.refl (c : Channel Empty) : c.Congruent c :=
  .mk (WordMachine.Congruent.refl c.buffer)

theorem Congruent.symm (h : c.Congruent c') : c'.Congruent c := by
  rcases h with ⟨hvalues⟩
  exact .mk hvalues.symm

theorem Congruent.name_eq (h : c.Congruent c') : c'.name = c.name := by
  cases h
  rfl

theorem Congruent.closed_eq (h : c.Congruent c') : c'.closed = c.closed := by
  cases h
  rfl

/-- Receivers of congruent channels find values that are congruent, or the end, or nothing, alike. -/
theorem Congruent.poll (h : c.Congruent c') : c.poll.Congruent c'.poll := by
  rcases h with @⟨name, buffer, buffer', waiting, closed, hvalues⟩
  cases hvalues with
  | nil =>
      cases closed with
      | true => exact .ended
      | false => exact .empty
  | cons hv hrest => exact .value hv (.mk hrest)

/-- Senders that send congruent values leave congruent channels behind. -/
theorem Congruent.accept (h : c.Congruent c')
    (hvalues : WordMachine.Congruent δ.value?.toList δ'.value?.toList) (hfinal : δ.final = δ'.final) :
    (c.accept δ).Congruent (c'.accept δ') := by
  rcases h with @⟨name, buffer, buffer', waiting, closed, hbuffers⟩
  simp only [Channel.accept, hfinal]
  refine .mk (List.rel_append hbuffers ?_)
  cases closed with
  | true => exact .nil
  | false => exact hvalues

theorem sendAll_singleton (c : Channel Empty) (v : Int) :
    c.sendAll [v] = c.accept { value? := some v } := by
  cases hclosed : c.closed with
  | false => rw [sendAll_of_open hclosed, Channel.accept, hclosed]; rfl
  | true =>
      rw [sendAll, send_of_closed hclosed, Channel.accept, hclosed]
      simp [sendAll, ← hclosed]

end Channel

/-! ## Links -/

namespace Link

/-- The channels before the engine are congruent, and the same has been emitted. -/
inductive Congruent : Link → Link → Prop where
  | mk {inbound inbound' outbound : Channel Empty} (inbounds : inbound.Congruent inbound') :
      Congruent ⟨inbound, outbound⟩ ⟨inbound', outbound⟩

variable {l l' : Link} {v v' : Int}

/-- Engines that receive from congruent channels get the same words, and leave congruent channels. -/
theorem Congruent.request (h : l.Congruent l') :
    (Link.device.request l).1.Alike (Link.device.request l').1 ∧
      (Link.device.request l).2.Congruent (Link.device.request l').2 := by
  rcases h with @⟨inbound, inbound', outbound, h⟩
  have hpoll := h.poll
  simp only [Link.device, Link.request]
  generalize inbound.poll = found at hpoll ⊢
  generalize inbound'.poll = found' at hpoll ⊢
  cases hpoll with
  | value values rests => exact ⟨.value (Word.ofInt_eq_iff.mpr values), .mk rests⟩
  | ended => exact ⟨.endOfStream _ _, .mk h⟩
  | empty => exact ⟨.wait, .mk h⟩

/-- The same over channels, where values travel unreduced and are reduced by the engine behind them. -/
theorem mirrors_congruent : Link.device.Mirrors Link.device Link.Congruent where
  request := fun _ _ h _ => h.request.2
  emit := by
    rintro _ _ w @⟨inbound, inbound', outbound, h⟩
    simp only [Link.device, Link.emit]
    cases outbound.send w.toInt with
    | ok sent => exact ⟨rfl, .mk h⟩
    | error why => exact ⟨rfl, .mk h⟩
  alike := fun _ _ h => h.request.1

theorem Congruent.feed (h : l.Congruent l') (hv : Word.Congruent v v') :
    (l.feed v).Congruent (l'.feed v') := by
  rcases h with ⟨h⟩
  simp only [Link.feed, Channel.sendAll_singleton]
  exact .mk (h.accept (.cons hv .nil) rfl)

theorem Congruent.shut (h : l.Congruent l') : l.shut.Congruent l'.shut := by
  rcases h with ⟨h⟩
  simp only [Link.shut_eq]
  exact .mk (h.accept .nil rfl)

end Link

/-! ## Sessions on links -/

inductive Deed where
  | call (fuel : Nat) (request : Request)
  | wake (fuel : Nat)
  -- A value is sent to the engine.
  | send (value : Int)
  -- The channel before the engine is closed.
  | close
  -- Something is done to the channel behind the engine: a value is received from it, or it is closed.
  | behind (update : Channel Empty → Channel Empty)

/-- The same is done, but the values that are sent need only be congruent. -/
inductive Deed.Congruent : Deed → Deed → Prop where
  | same (deed : Deed) : Congruent deed deed
  | send {v v' : Int} (values : Word.Congruent v v') : Congruent (.send v) (.send v')

namespace Session

/-- The session after a deed, with the answers that calls have got by it, listed by the numbers of the
calls. There is no result if a call takes more than its fuel. -/
def perform (s : Session Link) : Deed → Option (Session Link × List (Nat × Answer))
  | .call fuel request =>
    (s.call Link.device fuel request).map fun (s', answer?) =>
      (s', (answer?.map fun answer => (s.nextTicket, answer)).toList)
  | .wake fuel => s.wake Link.device fuel
  | .send value => some (s.change (Link.feed · value), [])
  | .close => some (s.change Link.shut, [])
  | .behind update => some (s.change fun l => { l with outbound := update l.outbound }, [])

def attend : Session Link → List Deed → Option (Session Link × List (Nat × Answer))
  | s, [] => some (s, [])
  | s, deed :: later =>
    (s.perform deed).bind fun (s, answers) =>
      (s.attend later).map fun (s, more) => (s, answers ++ more)

variable {s s' : Session Link} {deed deed' : Deed} {deeds deeds' : List Deed}

/-- One deed keeps two sessions paired, whichever of the congruent values it sends. -/
theorem perform_congruent (h : s.Paired Link.Congruent s') (hdeeds : deed.Congruent deed') :
    Option.Rel (Replies Link.Congruent) (s.perform deed) (s'.perform deed') := by
  cases hdeeds with
  | send values =>
      rcases h with ⟨hlinks⟩
      exact .some (.mk (.mk (hlinks.feed values)))
  | same =>
      cases deed with
      | call fuel request =>
          refine rel_map (Link.mirrors_congruent.call h fuel request) ?_
          rintro _ _ ⟨hpaired⟩
          rcases h with ⟨-⟩
          exact .mk hpaired
      | wake fuel => exact Link.mirrors_congruent.wake h fuel
      | send value =>
          rcases h with ⟨hlinks⟩
          exact .some (.mk (.mk (hlinks.feed (.refl value))))
      | close =>
          rcases h with ⟨hlinks⟩
          exact .some (.mk (.mk hlinks.shut))
      | behind update =>
          rcases h with ⟨⟨hinbounds⟩⟩
          exact .some (.mk (.mk (.mk hinbounds)))

/-- Whatever is done with a session, it comes to the same if congruent values are sent. -/
theorem attend_congruent (h : s.Paired Link.Congruent s')
    (hdeeds : List.Forall₂ Deed.Congruent deeds deeds') :
    Option.Rel (Replies Link.Congruent) (s.attend deeds) (s'.attend deeds') := by
  induction hdeeds generalizing s s' with
  | nil => exact .some (.mk h)
  | cons hdeed hlater ih =>
      refine rel_bind (perform_congruent h hdeed) ?_
      rintro _ _ ⟨hnext⟩
      refine rel_map (ih hnext) ?_
      rintro _ _ ⟨hlast⟩
      exact .mk hlast

end Session

end WordMachine
