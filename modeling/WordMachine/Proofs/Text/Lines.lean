import WordMachine.Text.Lines

/-!
# Lines of a text

`Text.Lined` relates a text to its lines by the rules of reading it from left to right. Every text has
exactly one list of lines, and `Text.lines` finds it (`Text.lined_iff`).
-/

namespace WordMachine.Text

def Unbroken (cs : List Char) : Prop :=
  ∀ c ∈ cs, c ≠ '\n' ∧ c ≠ '\r'

inductive Lined : List Char → List (List Char) → Prop where
  | nil : Lined [] []
  -- What stands behind the last line end, if anything does.
  | last {line : List Char} (nonempty : line ≠ []) (unbroken : Unbroken line) : Lined line [line]
  | lineFeed {line cs : List Char} {ls : List (List Char)} (unbroken : Unbroken line)
      (rest : Lined cs ls) : Lined (line ++ '\n' :: cs) (line :: ls)
  | carriageReturn {line cs : List Char} {ls : List (List Char)} (unbroken : Unbroken line)
      (alone : cs.head? ≠ some '\n') (rest : Lined cs ls) : Lined (line ++ '\r' :: cs) (line :: ls)
  | both {line cs : List Char} {ls : List (List Char)} (unbroken : Unbroken line)
      (rest : Lined cs ls) : Lined (line ++ '\r' :: '\n' :: cs) (line :: ls)

variable {cs line current : List Char} {ls done : List (List Char)} {c : Char}

/-! ## Reading on -/

theorem linesFrom_cons (h : c ≠ '\n' ∧ c ≠ '\r') (done : List (List Char)) (current cs : List Char) :
    linesFrom done current (c :: cs) = linesFrom done (c :: current) cs := by
  rw [linesFrom]
  · rintro - rfl
    exact absurd rfl h.2
  · rintro rfl
    exact absurd rfl h.2
  · rintro rfl
    exact absurd rfl h.1

/-- Characters without a line end are only gathered. -/
theorem linesFrom_append (h : Unbroken line) (done : List (List Char)) (current cs : List Char) :
    linesFrom done current (line ++ cs) = linesFrom done (line.reverse ++ current) cs := by
  induction line generalizing current with
  | nil => rfl
  | cons c line ih =>
      rcases List.forall_mem_cons.mp h with ⟨hc, hline⟩
      rw [List.cons_append, linesFrom_cons hc, ih hline, List.reverse_cons, List.append_assoc]
      rfl

/-- A carriage return ends a line by itself, unless a line feed follows that belongs to it. -/
theorem linesFrom_carriageReturn (h : cs.head? ≠ some '\n') (done : List (List Char))
    (current : List Char) :
    linesFrom done current ('\r' :: cs) = linesFrom (current.reverse :: done) [] cs := by
  rw [linesFrom]
  rintro cs' rfl
  exact absurd rfl h

/-! ## The lines of a text -/

/-- The lines found are those of the text, if what is read already has no line end in it. -/
theorem linesFrom_lined (h : Unbroken current) (done : List (List Char)) (cs : List Char) :
    ∃ ls, linesFrom done current cs = done.reverse ++ ls ∧ Lined (current.reverse ++ cs) ls := by
  have hbefore {current : List Char} (h : Unbroken current) : Unbroken current.reverse := fun c hc =>
    h c (List.mem_reverse.mp hc)
  have hfresh : Unbroken [] := by rintro c ⟨⟩
  fun_induction linesFrom done current cs with
  | case1 done current =>
      cases current with
      | nil => exact ⟨[], by simp, .nil⟩
      | cons c current =>
          refine ⟨[(c :: current).reverse], by simp, ?_⟩
          rw [List.append_nil]
          exact .last (by simp) (hbefore h)
  | case2 done current cs ih =>
      rcases ih hfresh with ⟨ls, hls, hlined⟩
      exact ⟨current.reverse :: ls, by simpa using hls, .both (hbefore h) hlined⟩
  | case3 done current cs hother ih =>
      rcases ih hfresh with ⟨ls, hls, hlined⟩
      have halone : cs.head? ≠ some '\n' := by
        intro hhead
        rcases List.head?_eq_some_iff.mp hhead with ⟨cs', rfl⟩
        exact hother cs' rfl
      exact ⟨current.reverse :: ls, by simpa using hls, .carriageReturn (hbefore h) halone hlined⟩
  | case4 done current cs ih =>
      rcases ih hfresh with ⟨ls, hls, hlined⟩
      exact ⟨current.reverse :: ls, by simpa using hls, .lineFeed (hbefore h) hlined⟩
  | case5 done current c cs hboth hreturn hfeed ih =>
      have hc : Unbroken (c :: current) :=
        List.forall_mem_cons.mpr ⟨⟨hfeed, hreturn⟩, h⟩
      rcases ih hc with ⟨ls, hls, hlined⟩
      exact ⟨ls, hls, by simpa using hlined⟩

/-- Whatever has been split off already stays as it is, so the lines can be built up from the front. -/
theorem Lined.linesFrom_eq (h : Lined cs ls) :
    ∀ done, linesFrom done [] cs = done.reverse ++ ls := by
  induction h with
  | nil =>
      intro done
      simp [linesFrom]
  | @last line nonempty unbroken =>
      intro done
      have hread := linesFrom_append unbroken done [] []
      rw [List.append_nil, List.append_nil] at hread
      simp [hread, linesFrom, nonempty]
  | @lineFeed line cs ls unbroken rest ih =>
      intro done
      rw [linesFrom_append unbroken, linesFrom, ih]
      simp
  | @carriageReturn line cs ls unbroken alone rest ih =>
      intro done
      rw [linesFrom_append unbroken, linesFrom_carriageReturn alone, ih]
      simp
  | @both line cs ls unbroken rest ih =>
      intro done
      rw [linesFrom_append unbroken, linesFrom, ih]
      simp

/-- The lines of a text are those that the rules give it, and it has no others. -/
theorem lined_iff : Lined cs ls ↔ ls = lines cs := by
  constructor
  · intro h
    exact (h.linesFrom_eq []).symm
  · rintro rfl
    have hstart : Unbroken [] := by rintro c ⟨⟩
    rcases linesFrom_lined hstart [] cs with ⟨ls, hls, hlined⟩
    rw [lines, hls]
    exact hlined

end WordMachine.Text
