import WordMachine.CommandLine.Value
import WordMachine.Proofs.Image.Written
import WordMachine.Proofs.Text.Trim

/-!
# Words as options

An option that takes a word trims its value, and a program is split into fields. As long as no comma is
about, both leave the same characters of a text with a single word (`Image.tokens_eq_singleton_iff`), and
so the option takes the programs of one word (`CommandLine.Value.takes_lone_words`).
-/

namespace WordMachine

namespace Image

variable {s : String} {token : List Char} {v : Int}

theorem isSeparator_of_blanks {cs : List Char} (h : Text.Blanks cs) :
    ∀ c ∈ cs, isSeparator c = true := fun c hc => (isSeparator_iff c).mpr (.inr (h c hc))

/-- Separators without a comma among them are blanks. -/
theorem blanks_of_separators {cs : List Char} (h : ∀ c ∈ cs, isSeparator c = true)
    (hcomma : ',' ∉ cs) : Text.Blanks cs := by
  intro c hc
  rcases (isSeparator_iff c).mp (h c hc) with rfl | hblank
  · exact absurd hc hcomma
  · exact hblank

/-- A text has a numeral as its only token, and no comma, if trimming leaves the numeral. -/
theorem tokens_eq_singleton_iff (h : Text.Denotes token v) :
    ',' ∉ s.toList ∧ tokens s = [token] ↔ Text.trim s.toList = token := by
  have hinside := isSeparator_of_denotes h
  have hother : ∀ c ∈ token, c ≠ ',' ∧ c.toNat ∉ Text.blankCodes := by
    intro c hc
    rw [← not_or, ← isSeparator_iff, hinside c hc]
    exact Bool.false_ne_true
  have hblank : ∀ {cs : List Char}, Text.Blanks cs → ',' ∉ cs := fun hcs hcomma =>
    absurd (hcs ',' hcomma) (by decide)
  have htokens : tokens s = [token] ↔ Text.Runs isSeparator s.toList [token] := by
    rw [Text.runs_iff, eq_comm]
    rfl
  rw [htokens, Text.runs_singleton_iff, Text.trim_eq_iff]
  constructor
  · rintro ⟨hcomma, ⟨before, after, hsplit, hbefore, hafter⟩, -, -⟩
    rw [hsplit, List.mem_append, List.mem_append, not_or, not_or] at hcomma
    rcases hcomma with ⟨⟨hcomma, -⟩, hcomma'⟩
    refine ⟨⟨before, after, hsplit, blanks_of_separators hbefore hcomma,
      blanks_of_separators hafter hcomma'⟩, ?_, ?_⟩
    · intro c hc
      exact (hother c (List.mem_of_head? hc)).2
    · intro c hc
      exact (hother c (List.mem_of_getLast? hc)).2
  · rintro ⟨⟨before, after, hsplit, hbefore, hafter⟩, -, -⟩
    refine ⟨?_, ⟨before, after, hsplit, isSeparator_of_blanks hbefore,
      isSeparator_of_blanks hafter⟩, h.ne_nil, hinside⟩
    rw [hsplit, List.mem_append, List.mem_append, not_or, not_or]
    exact ⟨⟨hblank hbefore, fun hcomma => (hother ',' hcomma).1 rfl⟩, hblank hafter⟩

/-- A text is a program of one word if its only token is a numeral of the word. -/
theorem read_eq_ok_singleton_iff {w : Word} :
    read s = .ok [w] ↔ ∃ token, Text.Denotes token w.toInt ∧ tokens s = [token] := by
  rw [read_eq_ok_iff, List.map_singleton, List.forall₂_cons_right_iff]
  simp only [List.forall₂_nil_right_iff]
  constructor
  · rintro ⟨-, token, rest, h, rfl, htokens⟩
    exact ⟨token, h, htokens⟩
  · rintro ⟨token, h, htokens⟩
    exact ⟨by simp [htokens], token, [], h, rfl, htokens⟩

end Image

namespace CommandLine.Value

variable {s : String} {w : Word} {why : BadValue}

theorem word_eq_ok_iff : word s = .ok w ↔ Text.Denotes (Text.trim s.toList) w.toInt := by
  rw [← Word.read_eq_ok_iff, word]
  cases Word.read (Text.trim s.toList) <;> simp [Except.mapError]

theorem word_eq_error_iff : word s = .error why ↔ why = .notWord s ∧ ∀ w, word s ≠ .ok w := by
  rw [word]
  cases Word.read (Text.trim s.toList) <;> simp [Except.mapError, eq_comm]

theorem word_eq_ok_iff_read : word s = .ok w ↔ ',' ∉ s.toList ∧ Image.read s = .ok [w] := by
  rw [word_eq_ok_iff, Image.read_eq_ok_singleton_iff]
  constructor
  · intro h
    rcases (Image.tokens_eq_singleton_iff h).mpr rfl with ⟨hcomma, htokens⟩
    exact ⟨hcomma, _, h, htokens⟩
  · rintro ⟨hcomma, token, h, htokens⟩
    rw [(Image.tokens_eq_singleton_iff h).mp ⟨hcomma, htokens⟩]
    exact h

/-- A text is taken for a word exactly if it has no comma and is read as a program of that word alone.
Every other text is refused with the complaint that it is no word. -/
theorem takes_lone_words (s : String) :
    (∀ w, word s = .ok w ↔ ',' ∉ s.toList ∧ Image.read s = .ok [w]) ∧
    (∀ why, word s = .error why ↔
      why = .notWord s ∧ ¬ ∃ w, ',' ∉ s.toList ∧ Image.read s = .ok [w]) ∧
    (BadValue.notWord s).message = "\"" ++ s ++ "\" is not a 64-bit integer" := by
  refine ⟨fun w => word_eq_ok_iff_read, ?_, rfl⟩
  intro why
  simp only [← word_eq_ok_iff_read, not_exists]
  exact word_eq_error_iff

end CommandLine.Value

end WordMachine
