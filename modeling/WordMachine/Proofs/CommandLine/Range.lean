import WordMachine.Proofs.CommandLine.Word

/-!
# Ranges as options

A range is two numerals around two dots, and reading finds them (`CommandLine.Value.bounds?_eq_some_iff`).
The integers between the bounds are only listed when the bounds are words and at most eight apart:
`CommandLine.Value.takes_short_ranges` says what comes of every text, and that a way of listing integers
which does anything else with longer ranges makes no difference.
-/

namespace WordMachine.CommandLine.Value

open Text (Blanks Denotes IsDigits isBlank trimLeft)

variable {cs rest numeral first last digits sign : List Char} {a b v : Int} {text : String}
  {ws : List Word} {why : BadValue}

/-! ## The numeral at the beginning of a text -/

def DigitsEnd (cs : List Char) : Prop :=
  ∀ c, cs.head? = some c → c.isDigit = false

/-- The digits that a text begins with, behind the given sign, and the rest of the text. -/
def behind (sign cs : List Char) : Option (List Char × List Char) :=
  match cs.takeWhile Char.isDigit with
  | [] => none
  | digits => some (sign ++ digits, cs.dropWhile Char.isDigit)

theorem numeral?_plus (cs : List Char) : numeral? ('+' :: cs) = behind ['+'] cs := rfl

theorem numeral?_minus (cs : List Char) : numeral? ('-' :: cs) = behind ['-'] cs := rfl

theorem numeral?_cons {c : Char} (hplus : c ≠ '+') (hminus : c ≠ '-') (cs : List Char) :
    numeral? (c :: cs) = behind [] (c :: cs) := by
  unfold numeral?
  split
  rename_i sign rest hsign
  split at hsign
  · rename_i heq
    cases heq
    exact absurd rfl hplus
  · rename_i heq
    cases heq
    exact absurd rfl hminus
  · cases hsign
    rfl

/-- The digits are all those that the text begins with, and there is one at least. -/
theorem behind_eq_some_iff :
    behind sign cs = some (numeral, rest) ↔
      ∃ digits, numeral = sign ++ digits ∧ cs = digits ++ rest ∧ IsDigits digits ∧ DigitsEnd rest := by
  unfold behind
  constructor
  · intro h
    split at h
    · cases h
    · rename_i hsome
      cases h
      have hdigits : IsDigits (cs.takeWhile Char.isDigit) :=
        ⟨hsome, List.all_eq_true.mp List.all_takeWhile⟩
      refine ⟨_, rfl, List.takeWhile_append_dropWhile.symm, hdigits, ?_⟩
      intro c hc
      have hstop := List.head?_dropWhile_not Char.isDigit cs
      rwa [hc] at hstop
  · rintro ⟨digits, rfl, rfl, ⟨hsome, hdigits⟩, hrest⟩
    have hnone : rest.takeWhile Char.isDigit = [] ∧ rest.dropWhile Char.isDigit = rest := by
      cases rest with
      | nil => exact ⟨rfl, rfl⟩
      | cons c rest => simp [hrest c rfl]
    rw [List.takeWhile_append_of_pos hdigits, List.dropWhile_append_of_pos hdigits, hnone.1, hnone.2,
      List.append_nil]
    split
    · exact absurd rfl hsome
    · rfl

/-- What is read is a numeral, and it goes on to the last of its digits. -/
theorem numeral?_eq_some_iff :
    numeral? cs = some (numeral, rest) ↔
      cs = numeral ++ rest ∧ (∃ v, Denotes numeral v) ∧ DigitsEnd rest := by
  constructor
  · intro h
    cases cs with
    | nil => cases h
    | cons c cs =>
        by_cases hplus : c = '+'
        · subst hplus
          rw [numeral?_plus, behind_eq_some_iff] at h
          rcases h with ⟨digits, rfl, rfl, hdigits, hrest⟩
          exact ⟨rfl, ⟨_, .plus hdigits⟩, hrest⟩
        · by_cases hminus : c = '-'
          · subst hminus
            rw [numeral?_minus, behind_eq_some_iff] at h
            rcases h with ⟨digits, rfl, rfl, hdigits, hrest⟩
            exact ⟨rfl, ⟨_, .minus hdigits⟩, hrest⟩
          · rw [numeral?_cons hplus hminus, behind_eq_some_iff] at h
            rcases h with ⟨digits, rfl, hsplit, hdigits, hrest⟩
            exact ⟨hsplit, ⟨_, .unsigned hdigits⟩, hrest⟩
  · rintro ⟨rfl, ⟨v, hv⟩, hrest⟩
    cases hv with
    | unsigned hdigits =>
        rcases List.exists_cons_of_ne_nil hdigits.1 with ⟨c, others, rfl⟩
        have hdigit := hdigits.2 c List.mem_cons_self
        have hplus : c ≠ '+' := by
          rintro rfl
          cases hdigit
        have hminus : c ≠ '-' := by
          rintro rfl
          cases hdigit
        rw [List.cons_append, numeral?_cons hplus hminus, behind_eq_some_iff]
        exact ⟨_, rfl, rfl, hdigits, hrest⟩
    | plus hdigits =>
        rw [List.cons_append, numeral?_plus, behind_eq_some_iff]
        exact ⟨_, rfl, rfl, hdigits, hrest⟩
    | minus hdigits =>
        rw [List.cons_append, numeral?_minus, behind_eq_some_iff]
        exact ⟨_, rfl, rfl, hdigits, hrest⟩

/-! ## The bounds of a range -/

/-- The text is two numerals around two dots, with blanks at the ends and around the dots. -/
def Frames (cs first last : List Char) : Prop :=
  ∃ before middle middle' after,
    cs = before ++ first ++ middle ++ ['.', '.'] ++ middle' ++ last ++ after ∧
    Blanks before ∧ Blanks middle ∧ Blanks middle' ∧ Blanks after ∧
    (∃ a, Denotes first a) ∧ ∃ b, Denotes last b

theorem not_blank_of_denotes (h : Denotes cs v) : ∀ c ∈ cs, c.toNat ∉ Text.blankCodes := by
  intro c hc hblank
  have hinside := Image.isSeparator_of_denotes h c hc
  rw [(Image.isSeparator_iff c).mpr (.inr hblank)] at hinside
  cases hinside

/-- Neither a blank nor the end of the text goes on with a numeral. -/
theorem digitsEnd_append (h : Blanks cs) (hrest : DigitsEnd rest) : DigitsEnd (cs ++ rest) := by
  cases cs with
  | nil => exact hrest
  | cons c cs =>
      intro c' hc'
      cases hc'
      refine Bool.eq_false_iff.mpr fun hdigit => ?_
      have hinside := Image.isSeparator_of_isDigit hdigit
      rw [Image.isSeparator_of_blanks h c List.mem_cons_self] at hinside
      cases hinside

/-- Blanks are left out in front of a numeral. -/
theorem trimLeft_numeral (h : Blanks cs) (hv : Denotes numeral v) (rest : List Char) :
    trimLeft (cs ++ (numeral ++ rest)) = numeral ++ rest := by
  rw [Text.trimLeft_append h]
  refine Text.trimLeft_of_head? ?_
  intro c hc
  rw [List.head?_append_of_ne_nil _ hv.ne_nil] at hc
  exact not_blank_of_denotes hv c (List.mem_of_head? hc)

/-- Trimming stops at the dots, which are no blanks, so the two halves of a range are trimmed apart. -/
theorem trimLeft_dot (h : Blanks cs) (rest : List Char) :
    trimLeft (cs ++ '.' :: rest) = '.' :: rest := by
  rw [Text.trimLeft_append h]
  refine Text.trimLeft_of_head? ?_
  rintro _ ⟨⟩
  decide

/-- The steps of reading a range. -/
theorem bounds?_eq_some_iff_exists :
    bounds? cs = some (first, last) ↔ ∃ rest rest' after,
      numeral? (trimLeft cs) = some (first, rest) ∧ trimLeft rest = '.' :: '.' :: rest' ∧
        numeral? (trimLeft rest') = some (last, after) ∧ after.all isBlank = true := by
  unfold bounds?
  constructor
  · intro h
    rcases Option.bind_eq_some_iff.mp h with ⟨⟨first', rest⟩, hfirst, h⟩
    dsimp only at h
    split at h
    · rename_i rest' hdots
      rcases Option.bind_eq_some_iff.mp h with ⟨⟨last', after⟩, hlast, h⟩
      rcases Option.ite_none_right_eq_some.mp h with ⟨hall, hfound⟩
      cases hfound
      exact ⟨rest, rest', after, hfirst, hdots, hlast, hall⟩
    · cases h
  · rintro ⟨rest, rest', after, hfirst, hdots, hlast, hall⟩
    unfold trimLeft at hfirst hdots hlast
    simp only [hfirst, hdots, hlast, hall, bind, Option.bind_some, if_true]

/-- Reading finds the numerals of a range, and accepts nothing else. -/
theorem bounds?_eq_some_iff : bounds? cs = some (first, last) ↔ Frames cs first last := by
  rw [bounds?_eq_some_iff_exists]
  constructor
  · rintro ⟨rest, rest', after, hfirst, hdots, hlast, hall⟩
    rcases numeral?_eq_some_iff.mp hfirst with ⟨hsplit, ha, -⟩
    rcases numeral?_eq_some_iff.mp hlast with ⟨hsplit', hb, -⟩
    rcases Text.exists_trimLeft cs with ⟨before, hcs, hbefore, -⟩
    rcases Text.exists_trimLeft rest with ⟨middle, hrest, hmiddle, -⟩
    rcases Text.exists_trimLeft rest' with ⟨middle', hrest', hmiddle', -⟩
    have hafter : Blanks after := fun c hc =>
      (Text.isBlank_iff c).mp (List.all_eq_true.mp hall c hc)
    refine ⟨before, middle, middle', after, ?_, hbefore, hmiddle, hmiddle', hafter, ha, hb⟩
    rw [hcs, hsplit, hrest, hdots, hrest', hsplit']
    simp
  · rintro ⟨before, middle, middle', after, rfl, hbefore, hmiddle, hmiddle', hafter, ⟨a, ha⟩, b, hb⟩
    have hdots : DigitsEnd (middle ++ '.' :: '.' :: (middle' ++ (last ++ after))) :=
      digitsEnd_append hmiddle (by rintro _ ⟨⟩; rfl)
    have hend : DigitsEnd after := by
      have hnil : DigitsEnd (after ++ []) := digitsEnd_append hafter (by rintro _ ⟨⟩)
      rwa [List.append_nil] at hnil
    have hsplit : before ++ first ++ middle ++ ['.', '.'] ++ middle' ++ last ++ after =
        before ++ (first ++ (middle ++ '.' :: '.' :: (middle' ++ (last ++ after)))) := by simp
    rw [hsplit, trimLeft_numeral hbefore ha]
    refine ⟨_, _, after, numeral?_eq_some_iff.mpr ⟨rfl, ⟨a, ha⟩, hdots⟩, trimLeft_dot hmiddle _, ?_,
      List.all_eq_true.mpr hafter.isBlank⟩
    rw [trimLeft_numeral hmiddle' hb]
    exact numeral?_eq_some_iff.mpr ⟨rfl, ⟨b, hb⟩, hend⟩

/-- The text is a range from the one integer to the other. -/
def Spans (text : String) (a b : Int) : Prop :=
  ∃ first last, Frames text.toList first last ∧ Denotes first a ∧ Denotes last b

/-- A text is split around its dots in one way only, since a numeral has no dot in it. -/
theorem Frames.unique {first' last' : List Char} (h : Frames cs first last)
    (h' : Frames cs first' last') : first = first' ∧ last = last' := by
  have hsame := (bounds?_eq_some_iff.mpr h).symm.trans (bounds?_eq_some_iff.mpr h')
  cases hsame
  exact ⟨rfl, rfl⟩

/-- Both bounds can be read off the text. -/
theorem Spans.unique {a' b' : Int} (h : Spans text a b) (h' : Spans text a' b') :
    a = a' ∧ b = b' := by
  rcases h with ⟨first, last, hframes, ha, hb⟩
  rcases h' with ⟨first', last', hframes', ha', hb'⟩
  rcases hframes.unique hframes' with ⟨rfl, rfl⟩
  exact ⟨Option.some.inj (ha.integer?_eq.symm.trans ha'.integer?_eq),
    Option.some.inj (hb.integer?_eq.symm.trans hb'.integer?_eq)⟩

/-! ## Reading a range -/

inductive Refuses (text : String) : BadValue → Prop where
  | shape (other : ∀ a b, ¬ Spans text a b) : Refuses text (.notRange text)
  -- The first bound that is no word is the one complained about.
  | first {first last : List Char} {a : Int} (frames : Frames text.toList first last)
      (denotes : Denotes first a) (outside : ¬ Word.InRange a) :
      Refuses text (.notWord (String.ofList first))
  | last {first last : List Char} {a b : Int} (frames : Frames text.toList first last)
      (denotes : Denotes first a) (inside : Word.InRange a) (denotes' : Denotes last b)
      (outside : ¬ Word.InRange b) : Refuses text (.notWord (String.ofList last))
  | empty {a b : Int} (spans : Spans text a b) (inside : Word.InRange a)
      (inside' : Word.InRange b) (crossed : b - a < 0) : Refuses text (.emptyRange text)
  | long {a b : Int} (spans : Spans text a b) (inside : Word.InRange a)
      (inside' : Word.InRange b) (apart : 8 < b - a) : Refuses text (.longRange text)

structure Short (text : String) (a b : Int) : Prop where
  spans : Spans text a b
  first : Word.InRange a
  last : Word.InRange b
  least : 0 ≤ b - a
  most : b - a ≤ 8

theorem trim_numeral (h : Denotes numeral v) : Text.trim numeral = numeral := by
  refine Text.trim_eq_iff.mpr ⟨⟨[], [], by simp, by rintro c ⟨⟩, by rintro c ⟨⟩⟩, ?_, ?_⟩
  · intro c hc
    exact not_blank_of_denotes h c (List.mem_of_head? hc)
  · intro c hc
    exact not_blank_of_denotes h c (List.mem_of_getLast? hc)

theorem word_of_inRange (h : Denotes numeral v) (hinside : Word.InRange v) :
    word (String.ofList numeral) = .ok (Word.ofInt v) := by
  rw [word_eq_ok_iff, String.toList_ofList, trim_numeral h, Word.toInt_ofInt_of_inRange hinside]
  exact h

/-- The complaint quotes the numeral as it is written. -/
theorem word_of_not_inRange (h : Denotes numeral v) (houtside : ¬ Word.InRange v) :
    word (String.ofList numeral) = .error (.notWord (String.ofList numeral)) := by
  refine word_eq_error_iff.mpr ⟨rfl, ?_⟩
  intro w hw
  rw [word_eq_ok_iff, String.toList_ofList, trim_numeral h] at hw
  have hsame : v = w.toInt := Option.some.inj (h.integer?_eq.symm.trans hw.integer?_eq)
  rw [hsame] at houtside
  exact houtside (Word.inRange_toInt w)

section Listing

variable {m : Type → Type} [Applicative m]

/-- Between two words only their distance decides. -/
theorem rangeBy_of_spans (h : Spans text a b) (ha : Word.InRange a) (hb : Word.InRange b)
    (list : Int → Int → m (List Int)) :
    rangeBy list text =
      if b - a < 0 then pure (.error (.emptyRange text))
      else if 8 < b - a then pure (.error (.longRange text))
      else (fun values => .ok (values.map Word.ofInt)) <$> list a b := by
  rcases h with ⟨first, last, hframes, hfirst, hlast⟩
  have hcrossed : b < a ↔ b - a < 0 := by omega
  have hlong : (maxRangeLength : Int) ≤ b - a ↔ 8 < b - a := by
    unfold maxRangeLength
    omega
  simp only [rangeBy, bounds?_eq_some_iff.mpr hframes, word_of_inRange hfirst ha,
    word_of_inRange hlast hb, Word.toInt_ofInt_of_inRange ha, Word.toInt_ofInt_of_inRange hb,
    hcrossed, hlong]

theorem Short.rangeBy_eq (h : Short text a b) (list : Int → Int → m (List Int)) :
    rangeBy list text = (fun values => .ok (values.map Word.ofInt)) <$> list a b := by
  rw [rangeBy_of_spans h.spans h.first h.last, if_neg (Int.not_lt.mpr h.least),
    if_neg (Int.not_lt.mpr h.most)]

/-- A refused text is never listed, however long the range would be: `list` is not used. -/
theorem Refuses.rangeBy_eq (h : Refuses text why) (list : Int → Int → m (List Int)) :
    rangeBy list text = pure (.error why) := by
  cases h with
  | shape other =>
      have hnone : bounds? text.toList = none := by
        refine Option.eq_none_iff_forall_ne_some.mpr ?_
        rintro ⟨first, last⟩ hbounds
        have hframes := bounds?_eq_some_iff.mp hbounds
        rcases hframes with ⟨-, -, -, -, -, -, -, -, -, ⟨a, ha⟩, b, hb⟩
        exact other a b ⟨first, last, bounds?_eq_some_iff.mp hbounds, ha, hb⟩
      simp only [rangeBy, hnone]
  | first frames denotes outside =>
      simp only [rangeBy, bounds?_eq_some_iff.mpr frames, word_of_not_inRange denotes outside]
  | last frames denotes inside denotes' outside =>
      simp only [rangeBy, bounds?_eq_some_iff.mpr frames, word_of_inRange denotes inside,
        word_of_not_inRange denotes' outside]
  | empty spans inside inside' crossed =>
      rw [rangeBy_of_spans spans inside inside', if_pos crossed]
  | long spans inside inside' apart =>
      rw [rangeBy_of_spans spans inside inside', if_neg (by omega), if_pos apart]

end Listing

/-- The cases are complete, so acceptance and refusal need only be proved one way. -/
theorem short_or_refuses (text : String) :
    (∃ a b, Short text a b) ∨ ∃ why, Refuses text why := by
  by_cases hspans : ∃ a b, Spans text a b
  · rcases hspans with ⟨a, b, hspans⟩
    rcases hspans with ⟨first, last, hframes, ha, hb⟩
    by_cases hfirst : Word.InRange a
    · by_cases hlast : Word.InRange b
      · have hspans : Spans text a b := ⟨first, last, hframes, ha, hb⟩
        by_cases hcrossed : b - a < 0
        · exact .inr ⟨_, .empty hspans hfirst hlast hcrossed⟩
        · by_cases happart : 8 < b - a
          · exact .inr ⟨_, .long hspans hfirst hlast happart⟩
          · exact .inl ⟨a, b, hspans, hfirst, hlast, by omega, by omega⟩
      · exact .inr ⟨_, .last hframes ha hfirst hb hlast⟩
    · exact .inr ⟨_, .first hframes ha hfirst⟩
  · exact .inr ⟨_, .shape fun a b h => hspans ⟨a, b, h⟩⟩

theorem Short.range_eq (h : Short text a b) :
    range text = .ok ((Interval.toList a b).map Word.ofInt) :=
  congrArg Id.run (h.rangeBy_eq fun first last => pure (Interval.toList first last))

theorem Refuses.range_eq (h : Refuses text why) : range text = .error why :=
  congrArg Id.run (h.rangeBy_eq fun first last => pure (Interval.toList first last))

theorem exists_range_iff : (∃ ws, range text = .ok ws) ↔ ∃ a b, Short text a b := by
  constructor
  · rintro ⟨ws, hws⟩
    rcases short_or_refuses text with hshort | ⟨why, hwhy⟩
    · exact hshort
    · cases hwhy.range_eq.symm.trans hws
  · rintro ⟨a, b, h⟩
    exact ⟨_, h.range_eq⟩

theorem range_eq_error_iff : range text = .error why ↔ Refuses text why := by
  constructor
  · intro h
    rcases short_or_refuses text with ⟨a, b, hshort⟩ | ⟨why', hwhy'⟩
    · cases hshort.range_eq.symm.trans h
    · cases hwhy'.range_eq.symm.trans h
      exact hwhy'
  · exact Refuses.range_eq

/-- The words between the bounds, one after another. -/
theorem Short.lists (h : Short text a b) (hread : range text = .ok ws) :
    (ws.length : Int) = b - a + 1 ∧ ∀ k, (hk : k < ws.length) → ws[k].toInt = a + k := by
  rcases h.first with ⟨hfirst, -⟩
  rcases h.last with ⟨-, hlast⟩
  have hleast := h.least
  cases h.range_eq.symm.trans hread
  have hlength : ((Interval.toList a b).map Word.ofInt).length = (b - a + 1).toNat := by
    simp [Interval.toList]
  refine ⟨by omega, ?_⟩
  intro k hk
  have hinside : Word.InRange (a + k) := by
    unfold Word.InRange
    omega
  simpa [Interval.toList] using Word.toInt_ofInt_of_inRange hinside

structure TakesShort (text : String) : Prop where
  accepts_iff : (∃ ws, range text = .ok ws) ↔ ∃ a b, Spans text a b ∧
    (-9223372036854775808 ≤ a ∧ a ≤ 9223372036854775807) ∧
    (-9223372036854775808 ≤ b ∧ b ≤ 9223372036854775807) ∧ 0 ≤ b - a ∧ b - a ≤ 8
  -- The words are the integers from the one bound to the other, in order.
  lists : ∀ a b ws, Spans text a b → range text = .ok ws →
    (ws.length : Int) = b - a + 1 ∧ 1 ≤ ws.length ∧ ws.length ≤ 9 ∧
      ∀ k, (h : k < ws.length) → ws[k].toInt = a + k
  error_iff : ∀ why, range text = .error why ↔ Refuses text why
  -- Listing has to come to an end for short ranges only.
  ends : ∀ list : Int → Int → Option (List Int),
    (∀ a b, 0 ≤ b - a → b - a ≤ 8 → list a b = some (Interval.toList a b)) →
      rangeBy list text = some (range text)

/-- Exactly the short ranges are taken. They are two numerals around two dots, with blanks allowed at
both ends and around the dots, whose values are words, the second not below the first and at most eight
above it. The words from the one to the other are then listed in order. Every other text is refused, and
nothing is listed for it. -/
theorem takes_short_ranges (text : String) : TakesShort text where
  accepts_iff := by
    rw [exists_range_iff]
    simp only [← Word.inRange_iff]
    constructor
    · rintro ⟨a, b, h⟩
      exact ⟨a, b, h.spans, h.first, h.last, h.least, h.most⟩
    · rintro ⟨a, b, hspans, hfirst, hlast, hleast, hmost⟩
      exact ⟨a, b, hspans, hfirst, hlast, hleast, hmost⟩
  lists := by
    intro a b ws hspans hread
    rcases exists_range_iff.mp ⟨ws, hread⟩ with ⟨a', b', hshort⟩
    rcases hspans.unique hshort.spans with ⟨rfl, rfl⟩
    rcases hshort.lists hread with ⟨hlength, hwords⟩
    have hleast := hshort.least
    have hmost := hshort.most
    exact ⟨hlength, by omega, by omega, hwords⟩
  error_iff := fun _ => range_eq_error_iff
  ends := by
    intro list hlist
    rcases short_or_refuses text with ⟨a, b, h⟩ | ⟨why, h⟩
    · rw [h.rangeBy_eq, h.range_eq, hlist a b h.least h.most]
      rfl
    · rw [h.rangeBy_eq, h.range_eq]
      rfl

-- The greatest word there is can be the last one.
example : range " +9223372036854775806 .. 9223372036854775807" =
    .ok [9223372036854775806, 9223372036854775807] := by decide +kernel

end WordMachine.CommandLine.Value
