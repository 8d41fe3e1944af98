import WordMachine.Text.Blank

/-!
# Fields of a text

`Text.Runs` relates a text to the maximal runs of characters that are no separators, by the rules of
reading it from left to right. Every text has exactly one list of such runs, and `Text.fields` finds
it (`Text.runs_iff`).
-/

namespace WordMachine.Text

def blankCodes : List Nat :=
  [0x09, 0x0A, 0x0B, 0x0C, 0x0D, 0x20, 0xA0, 0x1680, 0x2000, 0x2001, 0x2002, 0x2003, 0x2004, 0x2005,
    0x2006, 0x2007, 0x2008, 0x2009, 0x200A, 0x2028, 0x2029, 0x202F, 0x205F, 0x3000, 0xFEFF]

theorem isBlank_iff (c : Char) : isBlank c = true ↔ c.toNat ∈ blankCodes := by
  simp only [isBlank, scatteredBlanks, blankCodes, Bool.or_eq_true, Bool.and_eq_true,
    decide_eq_true_eq, List.contains_iff_mem, List.mem_cons, List.not_mem_nil, or_false]
  omega

/-- A text and the maximal runs in it of characters that are no separators, in order. -/
inductive Runs (isSeparator : Char → Bool) : List Char → List (List Char) → Prop where
  | nil : Runs isSeparator [] []
  | skip {c : Char} {cs : List Char} {runs : List (List Char)} (separator : isSeparator c = true)
      (rest : Runs isSeparator cs runs) : Runs isSeparator (c :: cs) runs
  -- A run ends where the text ends or the next separator stands.
  | run {r cs : List Char} {runs : List (List Char)} (nonempty : r ≠ [])
      (inside : ∀ c ∈ r, isSeparator c = false) (ends : ∀ c, cs.head? = some c → isSeparator c = true)
      (rest : Runs isSeparator cs runs) : Runs isSeparator (r ++ cs) (r :: runs)

variable {isSeparator : Char → Bool} {c : Char} {r cs : List Char} {runs : List (List Char)}

/-- Separators in front make no difference. -/
theorem Runs.skip_all {separators : List Char} (h : Runs isSeparator cs runs)
    (hseparators : ∀ c ∈ separators, isSeparator c = true) : Runs isSeparator (separators ++ cs) runs := by
  induction separators with
  | nil => exact h
  | cons c separators ih =>
      rcases List.forall_mem_cons.mp hseparators with ⟨hc, hrest⟩
      exact .skip hc (ih hrest)

/-- Only separators have no run among them. -/
theorem runs_nil_iff : Runs isSeparator cs [] ↔ ∀ c ∈ cs, isSeparator c = true := by
  constructor
  · intro h
    generalize hruns : ([] : List (List Char)) = runs at h
    induction h with
    | nil => simp
    | skip separator rest ih => exact List.forall_mem_cons.mpr ⟨separator, ih hruns⟩
    | run nonempty inside ends rest ih => cases hruns
  · intro h
    have hskipped := Runs.nil.skip_all h
    rwa [List.append_nil] at hskipped

/-- A text with a single run has separators before and behind it. -/
theorem runs_singleton_iff : Runs isSeparator cs [r] ↔
    (∃ before after, cs = before ++ r ++ after ∧ (∀ c ∈ before, isSeparator c = true) ∧
      ∀ c ∈ after, isSeparator c = true) ∧ r ≠ [] ∧ ∀ c ∈ r, isSeparator c = false := by
  constructor
  · intro h
    generalize hruns : [r] = runs at h
    induction h with
    | nil => cases hruns
    | @skip c cs runs separator rest ih =>
        rcases ih hruns with ⟨⟨before, after, rfl, hbefore, hafter⟩, hr⟩
        exact ⟨⟨c :: before, after, rfl, List.forall_mem_cons.mpr ⟨separator, hbefore⟩, hafter⟩, hr⟩
    | @run r' cs runs nonempty inside ends rest ih =>
        cases hruns
        exact ⟨⟨[], cs, rfl, by simp, runs_nil_iff.mp rest⟩, nonempty, inside⟩
  · rintro ⟨⟨before, after, rfl, hbefore, hafter⟩, nonempty, inside⟩
    have hends : ∀ c, after.head? = some c → isSeparator c = true := fun c hc =>
      hafter c (List.mem_of_head? hc)
    have hrun := Runs.run nonempty inside hends (runs_nil_iff.mpr hafter)
    rw [List.append_assoc]
    exact hrun.skip_all hbefore

/-- Runs with the same separators between any two of them. -/
theorem runs_intercalate {separators : List Char} (hsome : separators ≠ [])
    (hseparators : ∀ c ∈ separators, isSeparator c = true)
    (h : ∀ r ∈ runs, r ≠ [] ∧ ∀ c ∈ r, isSeparator c = false) :
    Runs isSeparator (separators.intercalate runs) runs := by
  induction runs with
  | nil => exact .nil
  | cons r runs ih =>
      rcases List.forall_mem_cons.mp h with ⟨⟨nonempty, inside⟩, hrest⟩
      cases runs with
      | nil =>
          have halone : separators.intercalate [r] = r ++ [] := by simp
          rw [halone]
          exact .run nonempty inside (by simp) .nil
      | cons r' runs =>
          have hjoined : separators.intercalate (r :: r' :: runs) =
              r ++ (separators ++ separators.intercalate (r' :: runs)) := by simp
          rw [hjoined]
          refine .run nonempty inside ?_ ((ih hrest).skip_all hseparators)
          intro c hc
          rcases List.exists_cons_of_ne_nil hsome with ⟨separator, others, rfl⟩
          cases hc
          exact hseparators c List.mem_cons_self

theorem fields_cons_of_separator (h : isSeparator c = true) :
    fields isSeparator (c :: cs) = fields isSeparator cs := by
  simp [fields, List.splitOnP_cons_eq_if_modifyHead, h]

theorem fields_run (nonempty : r ≠ []) (inside : ∀ c ∈ r, isSeparator c = false)
    (ends : ∀ c, cs.head? = some c → isSeparator c = true) :
    fields isSeparator (r ++ cs) = r :: fields isSeparator cs := by
  cases cs with
  | nil => simp [fields, List.splitOnP_eq_singleton inside, nonempty]
  | cons c cs =>
      have hc : isSeparator c = true := ends c rfl
      rw [fields_cons_of_separator hc]
      simp [fields, List.splitOnP_append_cons_of_forall_mem inside c hc, nonempty]

/-- A character more is skipped, or begins a run, or goes on with one. -/
theorem Runs.cons (h : Runs isSeparator cs runs) (c : Char) :
    ∃ runs', Runs isSeparator (c :: cs) runs' := by
  cases hc : isSeparator c with
  | true => exact ⟨runs, .skip hc h⟩
  | false =>
      cases h with
      | nil => exact ⟨[[c]], .run (r := [c]) (by simp) (by simpa using hc) (by simp) .nil⟩
      | skip separator rest =>
          refine ⟨_, .run (r := [c]) (by simp) (by simpa using hc) ?_ (.skip separator rest)⟩
          intro c' hc'
          cases hc'
          exact separator
      | @run r cs runs nonempty inside ends rest =>
          refine ⟨(c :: r) :: runs, .run (r := c :: r) (by simp) ?_ ends rest⟩
          intro c' hc'
          rcases List.mem_cons.mp hc' with rfl | hmem
          · exact hc
          · exact inside c' hmem

theorem exists_runs (isSeparator : Char → Bool) (cs : List Char) :
    ∃ runs, Runs isSeparator cs runs := by
  induction cs with
  | nil => exact ⟨[], .nil⟩
  | cons c cs ih =>
      rcases ih with ⟨runs, h⟩
      exact h.cons c

theorem Runs.eq_fields (h : Runs isSeparator cs runs) : runs = fields isSeparator cs := by
  induction h with
  | nil => rfl
  | skip separator rest ih => rw [fields_cons_of_separator separator, ih]
  | run nonempty inside ends rest ih => rw [fields_run nonempty inside ends, ih]

/-- The fields of a text are the maximal runs in it, and there are no others. -/
theorem runs_iff : Runs isSeparator cs runs ↔ runs = fields isSeparator cs := by
  constructor
  · exact Runs.eq_fields
  · rintro rfl
    rcases exists_runs isSeparator cs with ⟨runs, h⟩
    exact h.eq_fields ▸ h

end WordMachine.Text
