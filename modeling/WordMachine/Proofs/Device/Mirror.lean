import WordMachine.Proofs.Device.Coupling
import WordMachine.Proofs.Device.Overlap
import WordMachine.Session

/-!
# Devices that mirror each other

Two coupled devices mirror each other if they always reply alike. An engine cannot tell then on which
of them it runs: it makes the same steps (`Device.Mirrors.step`), its runs come to the same
(`Device.Mirrors.runOn`), and so does every session in which the same calls are made
(`Device.Mirrors.call`, `Device.Mirrors.wake`).
-/

namespace WordMachine

/-! ## Related results -/

section

variable {α β γ δ : Type} {P : α → β → Prop} {Q : γ → δ → Prop} {x : Option α} {y : Option β}

theorem rel_map {f : α → γ} {g : β → δ} (h : Option.Rel P x y)
    (hmaps : ∀ a b, P a b → Q (f a) (g b)) : Option.Rel Q (x.map f) (y.map g) := by
  cases h with
  | none => exact .none
  | some hab => exact .some (hmaps _ _ hab)

theorem rel_bind {f : α → Option γ} {g : β → Option δ} (h : Option.Rel P x y)
    (hnext : ∀ a b, P a b → Option.Rel Q (f a) (g b)) : Option.Rel Q (x.bind f) (y.bind g) := by
  cases h with
  | none => exact .none
  | some hab => exact hnext _ _ hab

/-- Related results look the same from where nothing tells them apart. -/
theorem map_eq_of_rel {f : α → γ} {g : β → γ} (h : Option.Rel P x y)
    (hmaps : ∀ a b, P a b → f a = g b) : x.map f = y.map g := by
  cases h with
  | none => rfl
  | some hab => exact congrArg some (hmaps _ _ hab)

end

/-! ## What mirrors what -/

/-- States of two devices that reply alike and react alike, now and for as long as an engine uses them
in the same way. -/
structure Device.Mirrors {σ τ : Type} (d : Device σ) (d' : Device τ) (R : σ → τ → Prop) : Prop
    extends d.Couples d' R where
  alike : ∀ s t, R s t → (d.request s).1.Alike (d'.request t).1

/-- The same engine has made the same turn, and left related states behind. -/
inductive Engine.Alongside {σ τ α : Type} (R : σ → τ → Prop) :
    Engine × σ × Turn α → Engine × τ × Turn α → Prop where
  | mk {e : Engine} {s : σ} {t : τ} {turn : Turn α} (states : R s t) :
      Alongside R (e, s, turn) (e, t, turn)

/-- The same session on related states. -/
inductive Session.Paired {σ τ : Type} (R : σ → τ → Prop) : Session σ → Session τ → Prop where
  | mk {engine : Engine} {s : σ} {t : τ} {outstanding : List Call} {nextTicket : Nat}
      (outside : R s t) :
      Paired R ⟨engine, s, outstanding, nextTicket⟩ ⟨engine, t, outstanding, nextTicket⟩

/-- The same session on related states, with the same answers. -/
inductive Session.Replies {σ τ α : Type} (R : σ → τ → Prop) : Session σ × α → Session τ × α → Prop where
  | mk {s : Session σ} {t : Session τ} {answers : α} (paired : s.Paired R t) :
      Replies R (s, answers) (t, answers)

/-- Replies that are alike keep a call waiting or let it go on together. -/
theorem Reply.Alike.eq_wait_iff {r r' : Reply} (h : r.Alike r') : r = .wait ↔ r' = .wait := by
  cases h <;> simp

/-! ## Sessions that are woken -/

namespace Session

variable {σ τ : Type} {d : Device σ} {R : σ → τ → Prop} {engine : Engine} {outside outside' : σ}
  {outstanding : List Call} {nextTicket fuel : Nat} {c : Call} {reply : Reply}

/-- Nothing is woken as long as the device has no reply. -/
theorem wake_of_wait (h : d.request outside = (.wait, outside')) (fuel : Nat) :
    wake d fuel ⟨engine, outside, c :: outstanding, nextTicket⟩ =
      some (⟨engine, outside', c :: outstanding, nextTicket⟩, []) := by
  rw [wake, h]

theorem wake_of_spent (h : d.request outside = (reply, outside')) (hreply : reply ≠ .wait) :
    wake d 0 ⟨engine, outside, c :: outstanding, nextTicket⟩ = none := by
  rw [wake, h]
  cases reply with
  | wait => exact absurd rfl hreply
  | _ => rfl

theorem wake_of_reply (h : d.request outside = (reply, outside')) (hreply : reply ≠ .wait) :
    wake d (fuel + 1) ⟨engine, outside, c :: outstanding, nextTicket⟩ =
      (goOn d fuel engine outside' outstanding nextTicket c reply).bind fun (s, answer?) =>
        (wake d fuel s).map fun (s, later) =>
          (s, (answer?.map fun result => (c.ticket, result)).toList ++ later) := by
  rw [wake, h]
  cases reply with
  | wait => exact absurd rfl hreply
  | _ =>
      simp only
      cases goOn d fuel engine outside' outstanding nextTicket c _ with
      | none => rfl
      | some next =>
          rcases next with ⟨s, answer?⟩
          simp only [Option.bind_some]
          cases wake d fuel s <;> rfl

/-- Calls are entered by what they turned out to be, never by the state of the device. -/
theorem enter_alongside {α : Type} {r : Engine × σ × Turn α} {r' : Engine × τ × Turn α}
    (h : Engine.Alongside R r r') (outstanding : List Call) (nextTicket ticket : Nat)
    (request : Request) (answer : Except Fault α → Answer) :
    Replies R (enter outstanding nextTicket ticket request answer r)
      (enter outstanding nextTicket ticket request answer r') := by
  cases h with
  | @mk e s t turn states => cases turn <;> exact .mk (.mk states)

end Session

namespace Device.Mirrors

open Engine

variable {σ τ : Type} {d : Device σ} {d' : Device τ} {R : σ → τ → Prop} {e e₀ : Engine} {s s₀ : σ}
  {t t₀ : τ} {x : Session σ} {y : Session τ}

/-! ## Steps and runs -/

/-- One step keeps two mirrored devices related; the engine does not see which one it is on. -/
theorem step (h : d.Mirrors d' R) (hs : R s t) (e : Engine) :
    Alongside R (e.step d s) (e.step d' t) := by
  have hparts : ¬ e.Parts d d' s t := by
    rintro ⟨e₁, pending, -, hdiffer⟩
    exact hdiffer (h.alike s t hs)
  rcases h.toCouples.step hs hparts with ⟨e', s', t', turn, hstep, hstep', hafter⟩
  rw [hstep, hstep']
  exact .mk hafter

/-- A run keeps mirrored devices related, since each of its steps does. -/
theorem runOn {r : Engine × σ × Turn (Option Ending)} {r' : Engine × τ × Turn (Option Ending)}
    (h : d.Mirrors d' R) (hr : Alongside R r r') (fuel : Nat) :
    Option.Rel (Alongside R) (Engine.runOn d fuel r) (Engine.runOn d' fuel r') := by
  rcases hr with @⟨e, s, t, turn, hs⟩
  cases hclosing : turn.closing? e.steps with
  | some result =>
      rw [runOn_of_closing hclosing, runOn_of_closing hclosing]
      exact .some (.mk hs)
  | none =>
      cases eq_of_closing_eq_none hclosing
      cases fuel with
      | zero => exact .none
      | succ fuel => exact h.runOn (h.step hs e) fuel

theorem run (h : d.Mirrors d' R) (hs : R s t) (e : Engine) (fuel : Nat) :
    Option.Rel (Alongside R) (e.run d fuel s) (e.run d' fuel t) :=
  h.runOn (h.step hs e.begin) fuel

/-- Whatever steps the engine makes on one device, it makes them on the other as well. -/
theorem oneByOne {answers : List (Except Fault (Option Ending))} (h : d.Mirrors d' R)
    (hs : R s₀ t₀) (hsteps : e₀.OneByOne d s₀ answers e s) :
    ∃ t, e₀.OneByOne d' t₀ answers e t ∧ R s t := by
  induction hsteps with
  | start => exact ⟨t₀, .start, hs⟩
  | @step answers e e' s s' answer before made ih =>
      rcases ih with ⟨t, hbefore, hst⟩
      have halongside := h.step hst e
      rw [made] at halongside
      generalize hmade : e.step d' t = r at halongside
      cases halongside with
      | mk states => exact ⟨_, .step hbefore hmade, states⟩

/-! ## Sessions -/

theorem call (h : d.Mirrors d' R) (hpaired : x.Paired R y) (fuel : Nat) (request : Request) :
    Option.Rel (Session.Replies R) (x.call d fuel request) (y.call d' fuel request) := by
  cases hpaired with
  | @mk engine s t outstanding ticket outside =>
      cases request with
      | step => exact .some (Session.enter_alongside (h.step outside engine) _ _ _ _ _)
      | run =>
          exact rel_map (h.run outside engine fuel)
            fun _ _ halongside => Session.enter_alongside halongside _ _ _ _ _

theorem goOn {reply reply' : Reply} (h : d.Mirrors d' R) (hs : R s t) (halike : reply.Alike reply')
    (fuel : Nat) (engine : Engine) (outstanding : List Call) (nextTicket : Nat) (c : Call) :
    Option.Rel (Session.Replies R)
      (Session.goOn d fuel engine s outstanding nextTicket c reply)
      (Session.goOn d' fuel engine t outstanding nextTicket c reply') := by
  simp only [Session.goOn, halike.resume_eq]
  cases c.request with
  | step => exact .some (Session.enter_alongside (.mk hs) _ _ _ _ _)
  | run =>
      exact rel_map (h.runOn (.mk hs) fuel)
        fun _ _ halongside => Session.enter_alongside halongside _ _ _ _ _

/-- Sessions that are woken let the same calls go on, and leave the same ones waiting. -/
theorem wake (h : d.Mirrors d' R) (hpaired : x.Paired R y) (fuel : Nat) :
    Option.Rel (Session.Replies R) (x.wake d fuel) (y.wake d' fuel) := by
  induction fuel using Nat.strongRecOn generalizing x y with
  | ind fuel ih =>
      rcases hpaired with @⟨engine, s, t, outstanding, ticket, hs⟩
      cases outstanding with
      | nil =>
          simp only [Session.wake]
          exact .some (.mk (.mk hs))
      | cons c outstanding =>
          have halike := h.alike s t hs
          have hafter := h.request s t hs halike
          rcases hrequest : d.request s with ⟨reply, s'⟩
          rcases hrequest' : d'.request t with ⟨reply', t'⟩
          rw [hrequest, hrequest'] at halike hafter
          by_cases hwait : reply = .wait
          · have hwait' : reply' = .wait := halike.eq_wait_iff.mp hwait
            rw [Session.wake_of_wait (hwait ▸ hrequest), Session.wake_of_wait (hwait' ▸ hrequest')]
            exact .some (.mk (.mk hafter))
          · have hwait' : reply' ≠ .wait := mt halike.eq_wait_iff.mpr hwait
            cases fuel with
            | zero =>
                rw [Session.wake_of_spent hrequest hwait, Session.wake_of_spent hrequest' hwait']
                exact .none
            | succ fuel =>
                rw [Session.wake_of_reply hrequest hwait, Session.wake_of_reply hrequest' hwait']
                refine rel_bind (h.goOn hafter halike fuel engine outstanding ticket c) ?_
                rintro _ _ ⟨hnext⟩
                refine rel_map (ih fuel (Nat.lt_succ_self fuel) hnext) ?_
                rintro _ _ ⟨hlast⟩
                exact .mk hlast

end Device.Mirrors

end WordMachine
