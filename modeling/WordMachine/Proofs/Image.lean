import WordMachine.Files
import WordMachine.Proofs.Sequence
import WordMachine.Proofs.Text.Fields
import WordMachine.Proofs.Text.Numeral

/-!
# Program texts

Which texts are programs, of what words, and what is said of the others. The fields of a text are read
one after another, and the first one that is no word ends the reading.

* `Word.read_eq_ok_iff` and `Word.read_eq_error_iff` for one word;
* `Image.reads_exactly` for the whole text.
-/

namespace WordMachine

namespace Word

variable {cs : List Char} {w : Word} {why : Misread}

theorem inRange_iff (v : Int) :
    InRange v ↔ -9223372036854775808 ≤ v ∧ v ≤ 9223372036854775807 := by
  unfold InRange limit
  omega

/-- The characters are no word for the given reason. -/
def Misread.Explains (cs : List Char) : Misread → Prop
  | .notInteger => ∀ v, ¬ Text.Denotes cs v
  | .outOfRange =>
    ∃ v, Text.Denotes cs v ∧ ¬ (-9223372036854775808 ≤ v ∧ v ≤ 9223372036854775807)

/-- A word is read from the numerals of its value, and from nothing else. -/
theorem read_eq_ok_iff : read cs = .ok w ↔ Text.Denotes cs w.toInt := by
  rw [← Text.integer?_eq_some_iff, read]
  cases hvalue : Text.integer? cs with
  | none => simp
  | some v =>
      by_cases hrange : InRange v
      · have hword : Int64.ofInt v = w ↔ v = w.toInt := by
          constructor
          · rintro rfl
            exact (toInt_ofInt_of_inRange hrange).symm
          · rintro rfl
            exact Int64.ofInt_toInt w
        simp [hrange, hword]
      · have hother : v ≠ w.toInt := by
          rintro rfl
          exact hrange (inRange_toInt w)
        simp [hrange, hother]

/-- What is no numeral is blamed for its syntax, and a numeral only for its size. -/
theorem read_eq_error_iff : read cs = .error why ↔ why.Explains cs := by
  rw [read]
  cases hvalue : Text.integer? cs with
  | none =>
      have hnone : ∀ v, ¬ Text.Denotes cs v := by
        intro v hv
        rw [hv.integer?_eq] at hvalue
        cases hvalue
      cases why with
      | notInteger => simpa [Misread.Explains] using hnone
      | outOfRange => simp [Misread.Explains, hnone]
  | some v =>
      have hv : ∀ v', Text.Denotes cs v' ↔ v' = v := by
        intro v'
        rw [← Text.integer?_eq_some_iff, hvalue, Option.some.injEq, eq_comm]
      by_cases hrange : InRange v
      · cases why <;> simp [Misread.Explains, hv, hrange, ← inRange_iff]
      · cases why <;> simp [Misread.Explains, hv, hrange, ← inRange_iff]

theorem exists_read_iff :
    (∃ w, read cs = .ok w) ↔
      ∃ v, Text.Denotes cs v ∧ -9223372036854775808 ≤ v ∧ v ≤ 9223372036854775807 := by
  constructor
  · rintro ⟨w, hw⟩
    exact ⟨w.toInt, read_eq_ok_iff.mp hw, (inRange_iff _).mp (inRange_toInt w)⟩
  · rintro ⟨v, hv, hrange⟩
    refine ⟨ofInt v, read_eq_ok_iff.mpr ?_⟩
    rw [toInt_ofInt_of_inRange ((inRange_iff v).mpr hrange)]
    exact hv

end Word

/-! ## Programs -/

namespace Image

variable {text : String} {ws : List Word} {index : Nat}

/-- Commas and blanks separate alike. -/
theorem isSeparator_iff (c : Char) : isSeparator c = true ↔ c = ',' ∨ c.toNat ∈ Text.blankCodes := by
  simp [isSeparator, Text.isBlank_iff]

theorem readToken_eq_ok_iff {token : List Char} {w : Word} :
    readToken token index = .ok w ↔ Word.read token = .ok w := by
  unfold readToken
  cases Word.read token <;> simp [Except.mapError]

theorem readToken_eq_error_iff {token : List Char} {why : Misread} :
    readToken token index = .error why ↔
      ∃ cause, Word.read token = .error cause ∧ why = .badWord (String.ofList token) index cause := by
  unfold readToken
  cases Word.read token <;> simp [Except.mapError, eq_comm]

/-- A text without a token is no program, and else the tokens are read one after another. -/
theorem read_eq (text : String) :
    read text =
      if tokens text = [] then .error .empty
      else (tokens text).zipIdx.mapM fun p => readToken p.1 p.2 := by
  unfold read
  split
  · simp [*]
  · rename_i hsome
    rw [if_neg hsome]

theorem read_eq_ok_iff :
    read text = .ok ws ↔
      tokens text ≠ [] ∧ List.Forall₂ Text.Denotes (tokens text) (ws.map Int64.toInt) := by
  rw [read_eq, List.forall₂_map_right_iff]
  split
  · simp [*]
  · rename_i hsome
    have hfirst : List.Forall₂ (fun p (w : Word) => readToken p.1 p.2 = .ok w) (tokens text).zipIdx ws ↔
        List.Forall₂ (fun token w => Text.Denotes token w.toInt) ((tokens text).zipIdx.map Prod.fst) ws := by
      rw [List.forall₂_map_left_iff]
      simp only [readToken_eq_ok_iff, Word.read_eq_ok_iff]
    rw [mapM_eq_ok_iff, hfirst, List.zipIdx_map_fst]
    simp [hsome]

/-- A text of separators only is empty as well. -/
theorem read_eq_empty_iff : read text = .error .empty ↔ tokens text = [] := by
  rw [read_eq]
  split
  · simp [*]
  · rename_i hsome
    rw [mapM_eq_error_iff]
    constructor
    · rintro ⟨i, h, hi, -⟩
      rcases readToken_eq_error_iff.mp hi with ⟨cause, -, hwhy⟩
      cases hwhy
    · intro hnone
      exact absurd hnone hsome

/-- The first token that is no word is the one complained about. -/
theorem read_eq_badWord_iff {token : String} {cause : Word.Misread} :
    read text = .error (.badWord token index cause) ↔
      ∃ h : index < (tokens text).length, token = String.ofList (tokens text)[index] ∧
        cause.Explains (tokens text)[index] ∧
        ∀ j, (hj : j < index) → ∃ w, Word.read (tokens text)[j] = .ok w := by
  rw [read_eq]
  split
  · rename_i hnone
    simp [hnone]
  · rw [mapM_eq_error_iff]
    simp only [List.getElem_zipIdx, List.length_zipIdx, Nat.zero_add, readToken_eq_error_iff,
      readToken_eq_ok_iff]
    constructor
    · rintro ⟨i, h, ⟨cause', hcause, hwhy⟩, hearlier⟩
      cases hwhy
      exact ⟨h, rfl, Word.read_eq_error_iff.mp hcause, hearlier⟩
    · rintro ⟨h, rfl, hcause, hearlier⟩
      exact ⟨index, h, ⟨cause, Word.read_eq_error_iff.mpr hcause, rfl⟩, hearlier⟩

structure Reads (text : String) : Prop where
  separator_iff : ∀ c, isSeparator c = true ↔ c = ',' ∨ c.toNat ∈ Text.blankCodes
  tokens_iff : ∀ runs, Text.Runs isSeparator text.toList runs ↔ runs = tokens text
  accepts_iff : (∃ ws, read text = .ok ws) ↔ tokens text ≠ [] ∧ ∀ token ∈ tokens text,
    ∃ v, Text.Denotes token v ∧ -9223372036854775808 ≤ v ∧ v ≤ 9223372036854775807
  -- The words are the values of the tokens.
  ok_iff : ∀ ws, read text = .ok ws ↔
    tokens text ≠ [] ∧ List.Forall₂ Text.Denotes (tokens text) (ws.map Int64.toInt)
  empty_iff : read text = .error .empty ↔ tokens text = []
  -- The token complained about is the first that is no word.
  badWord_iff : ∀ token index cause, read text = .error (.badWord token index cause) ↔
    ∃ h : index < (tokens text).length, token = String.ofList (tokens text)[index] ∧
      cause.Explains (tokens text)[index] ∧ ∀ j, (hj : j < index) →
        ∃ v, Text.Denotes (tokens text)[j] v ∧ -9223372036854775808 ≤ v ∧ v ≤ 9223372036854775807
  reported : ∀ why, read text = .error why →
    Image.ofText text = .error (.badProgram why) ∧
      (Fault.badProgram why).kind = "ProgramFormatError" ∧
      (Fault.badProgram why).message = match why with
        | .empty => "Program image is empty"
        | .badWord token index cause =>
          "Invalid word \"" ++ token ++ "\" at index " ++ toString index ++ ": " ++
            match cause with
            | .notInteger => "not an integer"
            | .outOfRange => "outside the signed 64-bit range"

theorem exists_read_iff :
    (∃ ws, read text = .ok ws) ↔ tokens text ≠ [] ∧ ∀ token ∈ tokens text,
      ∃ v, Text.Denotes token v ∧ -9223372036854775808 ≤ v ∧ v ≤ 9223372036854775807 := by
  rw [read_eq]
  split
  · simp [*]
  · rename_i hsome
    have htokens : (∀ p ∈ (tokens text).zipIdx, ∃ w, readToken p.1 p.2 = .ok w) ↔
        ∀ token ∈ (tokens text).zipIdx.map Prod.fst, ∃ w, Word.read token = .ok w := by
      simp only [readToken_eq_ok_iff, List.forall_mem_map]
    rw [exists_mapM_iff, htokens, List.zipIdx_map_fst]
    simp [hsome, Word.exists_read_iff]

/-- Reading accepts exactly the program texts. The tokens of a text are its maximal runs of characters
that are neither commas nor blanks. It is a program if it has a token and each token is a numeral of an
integer of 64 bits, and then its words are the values of the tokens, in order. Otherwise it is refused,
for having no token or for the first token that is no word, whose text, position and failing are
told. -/
theorem reads_exactly (text : String) : Reads text where
  separator_iff := isSeparator_iff
  tokens_iff := fun _ => Text.runs_iff
  accepts_iff := exists_read_iff
  ok_iff := fun _ => read_eq_ok_iff
  empty_iff := read_eq_empty_iff
  badWord_iff := by
    intro token index cause
    simp only [← Word.exists_read_iff]
    exact read_eq_badWord_iff
  reported := by
    intro why hwhy
    refine ⟨by simp [Image.ofText, hwhy], rfl, ?_⟩
    cases why with
    | empty => rfl
    | badWord token index cause =>
        cases cause with
        | notInteger => rfl
        | outOfRange => rfl

end Image

end WordMachine
