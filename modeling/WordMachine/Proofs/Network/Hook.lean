import WordMachine.Proofs.Engine.Lifecycle
import WordMachine.Proofs.Network.Sends

/-!
# Closing on notice

An engine of a network does not close the channel behind it. Whoever watches the engine does, each
time that a notice comes: `Row.stepHooked` is a step put that way. `Row.stepStage` closes the channel
when the engine turns out to have stopped, and the two agree as long as notices are given for stops
and only for them, which every engine of a network keeps to.
-/

namespace WordMachine

namespace Engine

variable {e e' : Engine} {inlet inlet' outlet : Channel Empty} {δ : Delivery}

/-- The channel when everything that was told between two moments has been heard. -/
def heardBetween (before now : Engine) (c : Channel Empty) : Channel Empty :=
  (now.notices.drop before.notices.length).foldl (fun c _ => c.close.1) c

/-- Nothing is heard of an engine that goes on, and one notice of an engine that stops. -/
theorem heardBetween_eq (h : e.Told) (h' : e'.Told) (hgoing : e.status.stop? = none)
    (c : Channel Empty) :
    heardBetween e e' c = if e'.status.stop?.isSome then c.close.1 else c := by
  have hnothing : e.notices = [] := h.notices_eq hgoing
  rw [heardBetween, hnothing, h']
  cases hstatus : e'.status <;> simp [outcome?, hstatus, Status.stop?]

theorem Told.of_passes (h : e.Told) (hpasses : e.Passes inlet outlet e' inlet' δ) : e'.Told := by
  rcases hpasses.step_eq with ⟨answer, hstep⟩
  have htold := h.step Link.device ⟨inlet, outlet⟩
  rw [hstep] at htold
  exact htold

end Engine

namespace Row

/-- Steps an engine as `stepStage` does, but has the channel behind it closed by whoever watches the
engine. -/
def stepHooked (inlet : Channel Empty) (engine : Engine) (rest : Row) : Row × Bool :=
  match engine.status.stop? with
  | some _ => (stage inlet engine rest, false)
  | none =>
    match engine.step Link.device ⟨inlet, rest.first⟩ with
    | (now, link, .waiting _) => (stage link.inbound now rest, false)
    | (now, link, .answered _) =>
      (stage link.inbound now (rest.withFirst (engine.heardBetween now link.outbound)), true)

/-- Closing on the announcement and closing on the status come to the same for an engine that has
told of its stop. -/
theorem stepHooked_eq {e : Engine} (h : e.Told) (inlet : Channel Empty) (rest : Row) :
    stepHooked inlet e rest = stepStage inlet e rest := by
  unfold stepHooked stepStage
  cases hgoing : e.status.stop? with
  | some how => rfl
  | none =>
      have htold := h.step Link.device ⟨inlet, rest.first⟩
      rcases hstep : e.step Link.device ⟨inlet, rest.first⟩ with ⟨now, link, answer | pending⟩
      · rw [hstep] at htold
        simp only [Engine.heardBetween_eq h htold hgoing]
        cases now.status.stop? <;> rfl
      · rfl

end Row

namespace Network

variable {n : Network} {wiring : Wiring} {images : List Image} {phases : List Int}
  {order : List Process} {e : Engine} {i : Nat}

theorem told_startFrom (wiring : Wiring) (place : Nat) (programs : List (Image × Int)) :
    ∀ e ∈ (startFrom wiring place programs).engines, e.Told := by
  induction programs generalizing place with
  | nil =>
      intro e he
      cases he
  | cons program programs ih =>
      intro e he
      rcases List.mem_cons.mp he with rfl | he
      · exact Engine.told_of_going (Engine.notices_begin _) rfl
      · exact ih (place + 1) e he

/-- Every engine of a network has given notice of having stopped, once, or none. -/
theorem told_of_follow (hfollow : (start wiring images phases).follow order = some n) :
    ∀ e ∈ n.row.engines, e.Told :=
  follow_invariant (fun n => ∀ e ∈ n.row.engines, e.Told)
    (fun _ _ _ htold hmoves =>
      hmoves.forall_engines (fun _ _ he ⟨_, _, _, _, hpasses⟩ => he.of_passes hpasses) htold)
    (told_startFrom wiring 0 _) hfollow

/-- The channel behind an engine is closed exactly when a notice has come from the engine. -/
theorem closed_iff_noticed_of_follow (hphases : phases ≠ []) (hlength : images.length = phases.length)
    (hfollow : (start wiring images phases).follow order = some n)
    (he : n.row.engines[i]? = some e) :
    ∃ c, n.row.channels[i + 1]? = some c ∧ (c.closed = true ↔ e.notices ≠ []) := by
  have htold : e.Told := told_of_follow hfollow e (List.mem_of_getElem? he)
  rcases (wired_of_follow hphases hlength hfollow).row.behind he with ⟨c, hchannel, hclosed⟩
  refine ⟨c, hchannel, ?_⟩
  rw [hclosed, htold]
  cases hstatus : e.status <;> simp [Engine.outcome?, hstatus, Status.stop?]

end Network

end WordMachine
