import WordMachine.Proofs.Image

/-!
# The written form of a program

A program is written as the numerals of its words with one comma between two of them. The tokens of
that text are the numerals again (`Image.tokens_text`), so that reading undoes writing, and a text that
has been read and written once is left as it is from then on (`Image.text_normal`).
-/

namespace WordMachine

namespace Image

variable {cs : List Char} {v : Int}

theorem isSeparator_of_isDigit {c : Char} (h : c.isDigit = true) : isSeparator c = false := by
  have hrange : 48 ≤ c.toNat ∧ c.toNat ≤ 57 := by
    simpa [Char.isDigit, UInt32.le_iff_toNat_le] using h
  refine Bool.eq_false_iff.mpr fun hseparator => ?_
  rcases (isSeparator_iff c).mp hseparator with rfl | hblank
  · exact absurd h (by decide)
  · simp only [Text.blankCodes, List.mem_cons, List.not_mem_nil, or_false] at hblank
    omega

/-- No numeral is cut in two. -/
theorem isSeparator_of_denotes (h : Text.Denotes cs v) : ∀ c ∈ cs, isSeparator c = false := by
  intro c hc
  rcases h.digit_or_sign c hc with hdigit | rfl | rfl
  · exact isSeparator_of_isDigit hdigit
  · decide
  · decide

/-- The tokens of a written program are the numerals of its words. -/
theorem tokens_text (ws : List Word) : tokens (text ws) = ws.map fun w => w.text.toList := by
  have hchars : (text ws).toList = [','].intercalate (ws.map fun w => w.text.toList) := by
    simp [text, String.toList_intercalate, Function.comp_def]
  have hruns : Text.Runs isSeparator (text ws).toList (ws.map fun w => w.text.toList) := by
    rw [hchars]
    refine Text.runs_intercalate (by simp) (List.forall_mem_singleton.mpr (by decide)) ?_
    rw [List.forall_mem_map]
    intro w _
    have hdenotes := Text.denotes_ofInteger w.toInt
    exact ⟨hdenotes.ne_nil, isSeparator_of_denotes hdenotes⟩
  exact hruns.eq_fields.symm

theorem read_text {ws : List Word} (h : ws ≠ []) : read (text ws) = .ok ws := by
  rw [read_eq_ok_iff, tokens_text]
  refine ⟨by simpa using h, ?_⟩
  rw [List.forall₂_map_left_iff, List.forall₂_map_right_iff, List.forall₂_same]
  intro w _
  exact Text.denotes_ofInteger w.toInt

/-- A program has a word. -/
theorem ne_nil_of_read {t : String} {ws : List Word} (h : read t = .ok ws) : ws ≠ [] := by
  rcases read_eq_ok_iff.mp h with ⟨hsome, hdenotes⟩
  rintro rfl
  exact hsome (List.forall₂_nil_right_iff.mp hdenotes)

/-- Reading undoes writing. So the written form of what a text says is read as the same words as that
text, and writing them once more changes nothing. -/
theorem text_normal :
    (∀ ws : List Word, ws ≠ [] → read (text ws) = .ok ws) ∧
    ∀ (t : String) (ws : List Word), read t = .ok ws →
      read (text ws) = .ok ws ∧ (read (text ws)).map text = .ok (text ws) := by
  refine ⟨fun ws => read_text, ?_⟩
  intro t ws h
  have hback := read_text (ne_nil_of_read h)
  refine ⟨hback, ?_⟩
  rw [hback]
  rfl

/-- The extreme words, and a text that is not in written form. -/
theorem text_normal_extremes :
    read "-9223372036854775808,9223372036854775807,0" =
        .ok [-9223372036854775808, 9223372036854775807, 0] ∧
      read "\t+007 ,-0,," = .ok [7, 0] ∧ text [7, 0] = "7,0" ∧ read "7,0" = .ok [7, 0] := by
  have hextremes := text_normal.1 [-9223372036854775808, 9223372036854775807, 0] (by decide)
  have hread : read "\t+007 ,-0,," = .ok [7, 0] := by decide +kernel
  have hagain := (text_normal.2 _ _ hread).1
  exact ⟨hextremes, hread, by decide +kernel, hagain⟩

end Image

end WordMachine
