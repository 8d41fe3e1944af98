import WordMachine.Text.Numeral

/-!
# Numerals

`Text.Denotes` says which characters are a numeral, and of what integer; reading finds it
(`Text.integer?_eq_some_iff`). An integer that is written in decimal reads back as itself
(`Text.integer?_ofInteger`).
-/

namespace WordMachine.Text

/-! ## Reading -/

def IsDigits (cs : List Char) : Prop :=
  cs ≠ [] ∧ ∀ c ∈ cs, c.isDigit = true

/-- The characters are a numeral of the integer: digits, or a sign and digits behind it. -/
inductive Denotes : List Char → Int → Prop where
  | unsigned {digits : List Char} (h : IsDigits digits) :
      Denotes digits (Nat.ofDigitChars 10 digits 0)
  | plus {digits : List Char} (h : IsDigits digits) :
      Denotes ('+' :: digits) (Nat.ofDigitChars 10 digits 0)
  | minus {digits : List Char} (h : IsDigits digits) :
      Denotes ('-' :: digits) (-(Nat.ofDigitChars 10 digits 0 : Int))

/-- Leading zeros are allowed, an empty text is not. -/
theorem natural?_eq_some_iff {cs : List Char} {n : Nat} :
    natural? cs = some n ↔ IsDigits cs ∧ Nat.ofDigitChars 10 cs 0 = n := by
  simp [natural?, IsDigits]

theorem natural?_of_isDigits {cs : List Char} (h : IsDigits cs) :
    natural? cs = some (Nat.ofDigitChars 10 cs 0) :=
  natural?_eq_some_iff.mpr ⟨h, rfl⟩

/-- Digits are read without a sign in front of them. -/
theorem integer?_of_isDigit {cs : List Char} (h : ∀ c ∈ cs, c.isDigit = true) :
    integer? cs = (natural? cs).map Int.ofNat := by
  unfold integer?
  split
  · have hsign := h '-' List.mem_cons_self
    cases hsign
  · have hsign := h '+' List.mem_cons_self
    cases hsign
  · rfl

theorem Denotes.integer?_eq {cs : List Char} {v : Int} (h : Denotes cs v) :
    integer? cs = some v := by
  cases h with
  | unsigned h =>
      rw [integer?_of_isDigit h.2, natural?_of_isDigits h]
      rfl
  | plus h => simp [integer?, natural?_of_isDigits h]
  | minus h => simp [integer?, natural?_of_isDigits h]

/-- Reading an integer accepts numerals and nothing else. -/
theorem integer?_eq_some_iff {cs : List Char} {v : Int} :
    integer? cs = some v ↔ Denotes cs v := by
  constructor
  · intro h
    unfold integer? at h
    split at h
    · rename_i digits
      cases hn : natural? digits with
      | none =>
          rw [hn] at h
          cases h
      | some n =>
          rw [hn] at h
          cases h
          rcases natural?_eq_some_iff.mp hn with ⟨hdigits, rfl⟩
          exact .minus hdigits
    · rcases Option.map_eq_some_iff.mp h with ⟨n, hn, rfl⟩
      rcases natural?_eq_some_iff.mp hn with ⟨hdigits, rfl⟩
      exact .plus hdigits
    · rcases Option.map_eq_some_iff.mp h with ⟨n, hn, rfl⟩
      rcases natural?_eq_some_iff.mp hn with ⟨hdigits, rfl⟩
      exact .unsigned hdigits
  · exact Denotes.integer?_eq

/-! ## Reading what is written -/

theorem natural?_toDigits (n : Nat) : natural? (Nat.toDigits 10 n) = some n := by
  have hsome : (Nat.toDigits 10 n).isEmpty = false := by
    rw [List.isEmpty_eq_false_iff]
    exact Nat.toDigits_ne_nil
  have hdigits : (Nat.toDigits 10 n).all Char.isDigit = true := by
    rw [List.all_eq_true]
    intro c hc
    exact Nat.isDigit_of_mem_toDigits (by decide) (by decide) hc
  simp only [natural?, hsome, hdigits, Bool.not_false, Bool.and_self, if_true,
    Nat.ofDigitChars_ten_toDigits]

/-- What is written can be read again. -/
theorem integer?_ofInteger (value : Int) : integer? (ofInteger value).toList = some value := by
  rw [ofInteger, Int.toString_eq_repr, Int.repr_eq_if]
  split
  · rename_i hnonneg
    have hdigits : ∀ c ∈ Nat.toDigits 10 value.toNat, c.isDigit = true := by
      intro c hc
      exact Nat.isDigit_of_mem_toDigits (by decide) (by decide) hc
    rw [Nat.repr_eq_ofList_toDigits, String.toList_ofList, integer?_of_isDigit hdigits,
      natural?_toDigits]
    exact congrArg some (Int.toNat_of_nonneg hnonneg)
  · rename_i hneg
    have hchars : ("-" ++ (-value).toNat.repr).toList = '-' :: Nat.toDigits 10 (-value).toNat := by
      simp [Nat.repr_eq_ofList_toDigits]
    have hvalue : -((-value).toNat : Int) = value := by omega
    rw [hchars]
    simp only [integer?, natural?_toDigits]
    exact congrArg some hvalue

/-- No two integers are written alike. -/
theorem ofInteger_injective : Function.Injective ofInteger := by
  intro v v' h
  have hread := integer?_ofInteger v
  rw [h, integer?_ofInteger v', Option.some.injEq] at hread
  exact hread.symm

/-- An integer is written as a numeral of it. -/
theorem denotes_ofInteger (value : Int) : Denotes (ofInteger value).toList value :=
  integer?_eq_some_iff.mp (integer?_ofInteger value)

/-! ## Characters -/

theorem Denotes.ne_nil {cs : List Char} {v : Int} (h : Denotes cs v) : cs ≠ [] := by
  cases h with
  | unsigned h => exact h.1
  | plus _ => exact List.cons_ne_nil _ _
  | minus _ => exact List.cons_ne_nil _ _

/-- Nothing stands in a numeral but digits and a sign. -/
theorem Denotes.digit_or_sign {cs : List Char} {v : Int} (h : Denotes cs v) :
    ∀ c ∈ cs, c.isDigit = true ∨ c = '+' ∨ c = '-' := by
  intro c hc
  cases h with
  | unsigned h => exact .inl (h.2 c hc)
  | plus h =>
      rcases List.mem_cons.mp hc with rfl | hc
      · exact .inr (.inl rfl)
      · exact .inl (h.2 c hc)
  | minus h =>
      rcases List.mem_cons.mp hc with rfl | hc
      · exact .inr (.inr rfl)
      · exact .inl (h.2 c hc)

end WordMachine.Text
