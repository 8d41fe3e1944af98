import WordMachine.Memory

/-!
# What memory holds

A memory is seen through `peek`: one word for every natural number. Reading and writing move words
between stores only if the two stores never compete for a cell, so the development rests on one
representation invariant:

* `Memory.Sound m` says that a cell kept on its own lies behind the buffer, and where the buffer
  cannot grow;
* `Memory.read_eq_ite` and `Memory.write_eq_ite` say which of the two stores has a cell;
* `Memory.peek_reach` says that growth is invisible;
* `Memory.peek_write` says that a write changes one cell, whatever it does to the buffer.
-/

namespace WordMachine.Memory

variable {m : Memory} {a b : Nat} {w : Word}

/-- Every cell that is kept on its own lies behind the buffer, now and after any growth. -/
def Sound (m : Memory) : Prop :=
  ∀ a, a ∈ m.sparse → max m.length denseLimit ≤ a

/-! ## Growth -/

/-- The buffer always grows far enough for the address that made it grow. -/
theorem lt_grownLength (length : Nat) (h : a < denseLimit) : a < grownLength length a := by
  unfold grownLength
  omega

/-- However far it grows, the buffer stays within its limit. -/
theorem grownLength_le (length a : Nat) : grownLength length a ≤ denseLimit := by
  unfold grownLength
  omega

/-- An address that the buffer covers, or can never cover, needs no room. -/
theorem reach_of_covered (h : a < m.length ∨ denseLimit ≤ a) : m.reach a = m :=
  if_pos h

theorem reach_of_uncovered (hout : m.length ≤ a) (hlow : a < denseLimit) :
    m.reach a =
      { m with dense := m.dense ++ Array.replicate (grownLength m.length a - m.length) 0 } := by
  have hneeds : ¬ (a < m.dense.size ∨ denseLimit ≤ a) := by
    rintro (hin | hfar)
    · exact Nat.not_lt.mpr hout hin
    · exact Nat.not_lt.mpr hfar hlow
  exact if_neg hneeds

theorem length_reach_of_uncovered (hout : m.length ≤ a) (hlow : a < denseLimit) :
    (m.reach a).length = grownLength m.length a := by
  have hroom := lt_grownLength m.length hlow
  have hsize : m.length + (grownLength m.length a - m.length) = grownLength m.length a := by omega
  rw [reach_of_uncovered hout hlow]
  simpa [length] using hsize

/-- An address below the limit lies in the buffer once room has been made for it. -/
theorem lt_length_reach (h : a < denseLimit) : a < (m.reach a).length := by
  rcases Nat.lt_or_ge a m.length with hin | hout
  · rwa [reach_of_covered (Or.inl hin)]
  · rw [length_reach_of_uncovered hout h]
    exact lt_grownLength m.length h

/-- The buffer keeps its length, or it becomes longer within the limit. -/
theorem length_reach :
    (m.reach a).length = m.length ∨
      m.length ≤ (m.reach a).length ∧ (m.reach a).length ≤ denseLimit := by
  by_cases hcovered : a < m.length ∨ denseLimit ≤ a
  · exact Or.inl (congrArg length (reach_of_covered hcovered))
  · have hout : m.length ≤ a := by omega
    have hlow : a < denseLimit := by omega
    have hroom := lt_grownLength m.length hlow
    rw [length_reach_of_uncovered hout hlow]
    exact Or.inr ⟨by omega, grownLength_le m.length a⟩

theorem length_le_reach (m : Memory) (a : Nat) : m.length ≤ (m.reach a).length := by
  rcases length_reach (m := m) (a := a) with hsame | ⟨hgrown, -⟩
  · exact Nat.le_of_eq hsame.symm
  · exact hgrown

@[simp] theorem sparse_reach : (m.reach a).sparse = m.sparse := by
  unfold reach
  split <;> rfl

/-- Growth covers no cell that is kept on its own, so nothing is hidden by it. -/
theorem Sound.reach (h : m.Sound) (a : Nat) : (m.reach a).Sound := by
  intro b hb
  rw [sparse_reach] at hb
  have hbound := h b hb
  rcases length_reach (m := m) (a := a) with hsame | ⟨-, hlimit⟩
  · omega
  · omega

/-! ## Two stores -/

/-- The cell is kept on its own: the buffer does not cover it, and cannot grow so far. -/
def IsSparse (m : Memory) (a : Nat) : Prop :=
  m.length ≤ a ∧ denseLimit ≤ a

instance (m : Memory) (a : Nat) : Decidable (m.IsSparse a) :=
  inferInstanceAs (Decidable (_ ∧ _))

theorem IsSparse.reach_eq (h : m.IsSparse a) : m.reach a = m :=
  reach_of_covered (Or.inr h.2)

/-- The buffer covers every other cell once room has been made for it. -/
theorem lt_length_reach_iff : a < (m.reach a).length ↔ ¬ m.IsSparse a := by
  constructor
  · intro hin hsparse
    rw [hsparse.reach_eq] at hin
    exact Nat.not_lt.mpr hsparse.1 hin
  · intro hdense
    by_cases hlow : a < denseLimit
    · exact lt_length_reach hlow
    · have hin : a < m.length := by
        unfold IsSparse at hdense
        omega
      exact Nat.lt_of_lt_of_le hin (length_le_reach m a)

/-- Which store a cell is read from may be settled before room is made for it. -/
theorem read_eq_ite (m : Memory) (a : Nat) :
    m.read a =
      if m.IsSparse a then (m.sparse.getD a 0, m)
      else ((m.reach a).dense.getD a 0, m.reach a) := by
  split
  · rename_i hsparse
    have hout : ¬ a < m.dense.size := Nat.not_lt.mpr hsparse.1
    simp [read, peek, hsparse.reach_eq, hout]
  · rename_i hdense
    have hin : a < (m.reach a).dense.size := lt_length_reach_iff.mpr hdense
    simp [read, peek, hin]

/-- And so may be which store a word is written to. -/
theorem write_eq_ite (m : Memory) (a : Nat) (w : Word) :
    m.write a w =
      if m.IsSparse a then { m with sparse := m.sparse.insert a w }
      else { m.reach a with dense := (m.reach a).dense.setIfInBounds a w } := by
  split
  · rename_i hsparse
    have hout : ¬ a < m.dense.size := Nat.not_lt.mpr hsparse.1
    simp [write, hsparse.reach_eq, hout]
  · rename_i hdense
    have hin : a < (m.reach a).dense.size := lt_length_reach_iff.mpr hdense
    simp [write, hin, Array.setIfInBounds]

/-! ## Views -/

/-- A cell outside the buffer that is not kept on its own is zero. -/
theorem peek_of_length_le (hlength : m.length ≤ a) (hsparse : a ∉ m.sparse) : m.peek a = 0 := by
  have hout : ¬ a < m.dense.size := Nat.not_lt.mpr hlength
  simp [peek, hout, Std.TreeMap.getD_eq_fallback hsparse]

/-- Growth is invisible. -/
theorem peek_reach (h : m.Sound) (a b : Nat) : (m.reach a).peek b = m.peek b := by
  by_cases hcovered : a < m.length ∨ denseLimit ≤ a
  · rw [reach_of_covered hcovered]
  · rw [reach_of_uncovered (by omega) (by omega)]
    by_cases hb : b < m.dense.size
    · have hb' : b < m.dense.size + (grownLength m.length a - m.length) := by omega
      simp [peek, hb, hb', Array.getElem_append_left hb]
    · by_cases hnew : b < m.dense.size + (grownLength m.length a - m.length)
      · -- A new cell: it was not kept on its own, because the buffer can grow over it.
        have hlimit := grownLength_le m.length a
        have hsize : m.length = m.dense.size := rfl
        have hsparse : b ∉ m.sparse := by
          intro hmem
          have hbound := h b hmem
          omega
        rw [peek_of_length_le (Nat.not_lt.mp hb) hsparse]
        simp [peek, hnew, Array.getElem_append_right (Nat.not_lt.mp hb)]
      · simp [peek, hb, hnew]

theorem sound_load (image : Image) : (load image).Sound := by
  intro a ha
  simp [load] at ha

/-- Behind the image memory is zero. -/
theorem peek_load (image : Image) (a : Nat) : (load image).peek a = image.getD a 0 := by
  by_cases ha : a < image.size
  · simp [load, peek, ha]
  · simp [load, peek, ha]

theorem peek_load_ofIntegers (values : List Int) (a : Nat) :
    (load (Image.ofIntegers values)).peek a = Word.ofInt (values.getD a 0) := by
  rw [peek_load]
  by_cases ha : a < values.length
  · simp [Image.ofIntegers, ha]
  · simp [Image.ofIntegers, ha, Word.ofInt]

/-! ## Writes -/

theorem write_eq :
    m.write a w =
      if h : a < (m.reach a).dense.size then
        ⟨(m.reach a).dense.set a w, (m.reach a).sparse⟩
      else ⟨(m.reach a).dense, (m.reach a).sparse.insert a w⟩ := rfl

@[simp] theorem length_write : (m.write a w).length = (m.reach a).length := by
  rw [write_eq]
  split
  · simp [length]
  · rfl

/-- A write keeps memory sound: a cell goes to the buffer if that reaches it, and is kept on its own
only beyond all growth. -/
theorem Sound.write (h : m.Sound) (a : Nat) (w : Word) : (m.write a w).Sound := by
  have hreach := h.reach a
  intro b hb
  rw [length_write]
  rw [write_eq_ite] at hb
  split at hb
  · rename_i hsparse
    rw [hsparse.reach_eq]
    rcases Std.TreeMap.mem_insert.mp hb with heq | hmem
    · have hab : a = b := by simpa using heq
      exact hab ▸ Nat.max_le.mpr hsparse
    · exact h b hmem
  · exact hreach b hb

/-- A write changes one cell. -/
theorem peek_write (h : m.Sound) (a : Nat) (w : Word) (b : Nat) :
    (m.write a w).peek b = if b = a then w else m.peek b := by
  rw [← peek_reach h a b, write_eq]
  split
  · rename_i hin
    by_cases hba : b = a
    · subst hba
      simp [peek, hin]
    · by_cases hb : b < (m.reach a).dense.size
      · simp [peek, hb, hba, Array.getElem_set_ne hin hb (Ne.symm hba)]
      · simp [peek, hb, hba]
  · rename_i hout
    by_cases hba : b = a
    · subst hba
      simp [peek, hout]
    · by_cases hb : b < (m.reach a).dense.size
      · simp [peek, hb, hba]
      · simp [peek, hb, hba, Std.TreeMap.getD_insert, Ne.symm hba]

/-! ## Reads -/

/-- Making room changes no cell, so a read returns what was there before. -/
theorem fst_read (h : m.Sound) (a : Nat) : (m.read a).1 = m.peek a :=
  peek_reach h a a

end WordMachine.Memory
