import Mathlib.Data.List.Forall2

/-!
# One after another

Things are read from left to right, each into a result or a failure, and the first failure ends the
reading: so operands are resolved and so the words of a program are read. `mapM_eq_ok_iff` and
`mapM_eq_error_iff` say what comes of it.
-/

namespace WordMachine

variable {α β ε : Type} {f : α → Except ε β}

/-- The first error ends the walk; what comes behind it is not looked at. -/
theorem mapM_cons_of_error {a : α} {why : ε} (h : f a = .error why) (l : List α) :
    (a :: l).mapM f = .error why := by
  rw [List.mapM_cons, h]
  rfl

theorem mapM_cons_of_ok {a : α} {b : β} (h : f a = .ok b) (l : List α) :
    (a :: l).mapM f = (l.mapM f).map (b :: ·) := by
  rw [List.mapM_cons, h]
  cases l.mapM f <;> rfl

theorem mapM_congr_of_mem {g : α → Except ε β} {l : List α} (h : ∀ a ∈ l, f a = g a) :
    l.mapM f = l.mapM g := by
  induction l with
  | nil => rfl
  | cons a l ih =>
      rcases List.forall_mem_cons.mp h with ⟨ha, hl⟩
      rw [List.mapM_cons, List.mapM_cons, ha, ih hl]

/-- A walk succeeds with what it finds at each place, in order. -/
theorem mapM_eq_ok_iff {l : List α} {bs : List β} :
    l.mapM f = .ok bs ↔ List.Forall₂ (fun a b => f a = .ok b) l bs := by
  induction l generalizing bs with
  | nil =>
      rw [List.forall₂_nil_left_iff]
      constructor
      · intro h
        cases h
        rfl
      · rintro rfl
        rfl
  | cons a l ih =>
      rw [List.forall₂_cons_left_iff]
      cases ha : f a with
      | error why => simp [mapM_cons_of_error ha]
      | ok b =>
          rw [mapM_cons_of_ok ha]
          cases hl : l.mapM f with
          | error why => simp [← ih, hl, Except.map]
          | ok cs => simp [← ih, hl, Except.map, eq_comm]

/-- Nothing but the members decides on success. -/
theorem exists_mapM_iff {l : List α} :
    (∃ bs, l.mapM f = .ok bs) ↔ ∀ a ∈ l, ∃ b, f a = .ok b := by
  induction l with
  | nil =>
      refine ⟨?_, fun _ => ⟨[], rfl⟩⟩
      intro _ a ha
      cases ha
  | cons a l ih =>
      rw [List.forall_mem_cons, ← ih]
      cases ha : f a with
      | error why => simp [mapM_cons_of_error ha]
      | ok b =>
          rw [mapM_cons_of_ok ha]
          cases l.mapM f <;> simp [Except.map]

/-- Whatever stops first stops all. -/
theorem mapM_eq_error_iff {l : List α} {why : ε} :
    l.mapM f = .error why ↔
      ∃ i, ∃ h : i < l.length, f l[i] = .error why ∧ ∀ j, (hj : j < i) → ∃ b, f l[j] = .ok b := by
  induction l with
  | nil =>
      constructor
      · intro h
        cases h
      · rintro ⟨i, h, -⟩
        cases h
  | cons a l ih =>
      cases ha : f a with
      | error cause =>
          rw [mapM_cons_of_error ha]
          constructor
          · intro h
            cases h
            exact ⟨0, Nat.zero_lt_succ _, ha, by simp⟩
          · rintro ⟨i, h, hi, hearlier⟩
            cases i with
            | zero =>
                cases ha.symm.trans hi
                rfl
            | succ i =>
                rcases hearlier 0 (Nat.zero_lt_succ i) with ⟨b, hb⟩
                cases ha.symm.trans hb
      | ok b =>
          have hmap : (l.mapM f).map (b :: ·) = .error why ↔ l.mapM f = .error why := by
            cases l.mapM f <;> simp [Except.map]
          rw [mapM_cons_of_ok ha, hmap, ih]
          constructor
          · rintro ⟨i, h, hi, hearlier⟩
            refine ⟨i + 1, Nat.succ_lt_succ h, hi, ?_⟩
            intro j hj
            cases j with
            | zero => exact ⟨b, ha⟩
            | succ j => exact hearlier j (Nat.lt_of_succ_lt_succ hj)
          · rintro ⟨i, h, hi, hearlier⟩
            cases i with
            | zero => cases ha.symm.trans hi
            | succ i =>
                refine ⟨i, Nat.lt_of_succ_lt_succ h, hi, ?_⟩
                intro j hj
                exact hearlier (j + 1) (Nat.succ_lt_succ hj)

end WordMachine
