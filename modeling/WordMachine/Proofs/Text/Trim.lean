import WordMachine.Proofs.Text.Fields

/-!
# Trimmed texts

Trimming takes blanks away from both ends of a text and nothing else, and goes on until the first and
the last character are not blank (`Text.trim_eq_iff`).
-/

namespace WordMachine.Text

variable {cs core : List Char}

def Blanks (cs : List Char) : Prop :=
  ∀ c ∈ cs, c.toNat ∈ blankCodes

theorem Blanks.isBlank (h : Blanks cs) : ∀ c ∈ cs, isBlank c = true := fun c hc =>
  (isBlank_iff c).mpr (h c hc)

theorem trimLeft_append (h : Blanks core) (cs : List Char) :
    trimLeft (core ++ cs) = trimLeft cs :=
  List.dropWhile_append_of_pos h.isBlank

/-- A text that does not begin with a blank is left as it is. -/
theorem trimLeft_of_head? (h : ∀ c, cs.head? = some c → c.toNat ∉ blankCodes) : trimLeft cs = cs := by
  cases cs with
  | nil => rfl
  | cons c cs =>
      have hc : isBlank c = false :=
        Bool.eq_false_iff.mpr fun hblank => h c rfl ((isBlank_iff c).mp hblank)
      rw [trimLeft, List.dropWhile_cons, hc]
      rfl

/-- Trimming removes blanks only, and as many as there are. -/
theorem exists_trimLeft (cs : List Char) : ∃ before, cs = before ++ trimLeft cs ∧ Blanks before ∧
    ∀ c, (trimLeft cs).head? = some c → c.toNat ∉ blankCodes := by
  induction cs with
  | nil => exact ⟨[], rfl, by rintro c ⟨⟩, by rintro c ⟨⟩⟩
  | cons c cs ih =>
      cases hc : isBlank c with
      | true =>
          have htrim : trimLeft (c :: cs) = trimLeft cs := List.dropWhile_cons_of_pos hc
          rcases ih with ⟨before, hsplit, hblanks, hhead⟩
          refine ⟨c :: before, ?_, List.forall_mem_cons.mpr ⟨(isBlank_iff c).mp hc, hblanks⟩, ?_⟩
          · rw [htrim, List.cons_append, ← hsplit]
          · rw [htrim]
            exact hhead
      | false =>
          have hother : ∀ c', (c :: cs).head? = some c' → c'.toNat ∉ blankCodes := by
            rintro _ ⟨⟩ hblank
            rw [(isBlank_iff c).mpr hblank] at hc
            cases hc
          have htrim := trimLeft_of_head? hother
          exact ⟨[], htrim.symm, by rintro c' ⟨⟩, by rwa [htrim]⟩

theorem trimRight_eq_reverse (cs : List Char) : trimRight cs = (trimLeft cs.reverse).reverse := rfl

/-- What trimming leaves is the text without some blanks at its ends, and has none there. -/
theorem trim_eq_iff : trim cs = core ↔
    (∃ before after, cs = before ++ core ++ after ∧ Blanks before ∧ Blanks after) ∧
      (∀ c, core.head? = some c → c.toNat ∉ blankCodes) ∧
      ∀ c, core.getLast? = some c → c.toNat ∉ blankCodes := by
  constructor
  · rintro rfl
    rcases exists_trimLeft cs with ⟨before, hleft, hbefore, hhead⟩
    rcases exists_trimLeft (trimLeft cs).reverse with ⟨after, hright, hafter, hlast⟩
    have hsplit : trimLeft cs = trim cs ++ after.reverse := by
      rw [trim, trimRight_eq_reverse, ← List.reverse_append, ← hright, List.reverse_reverse]
    refine ⟨⟨before, after.reverse, ?_, hbefore, ?_⟩, ?_, ?_⟩
    · rw [List.append_assoc, ← hsplit]
      exact hleft
    · intro c hc
      exact hafter c (List.mem_reverse.mp hc)
    · -- The text begins as it did before its end was trimmed, if anything is left.
      intro c hc
      refine hhead c ?_
      rw [hsplit, List.head?_append, hc]
      rfl
    · intro c hc
      refine hlast c ?_
      rwa [trim, trimRight_eq_reverse, List.getLast?_reverse] at hc
  · rintro ⟨⟨before, after, rfl, hbefore, hafter⟩, hhead, hlast⟩
    have hafter' : Blanks after.reverse := fun c hc => hafter c (List.mem_reverse.mp hc)
    rw [trim, List.append_assoc, trimLeft_append hbefore, trimRight_eq_reverse]
    cases core with
    | nil =>
        rw [List.nil_append, ← List.append_nil after, trimLeft_append hafter]
        rfl
    | cons c core =>
        have hbegins : ∀ c', (c :: core ++ after).head? = some c' → c'.toNat ∉ blankCodes := hhead
        have hends : ∀ c', (c :: core).reverse.head? = some c' → c'.toNat ∉ blankCodes := by
          intro c' hc'
          exact hlast c' (by rwa [List.head?_reverse] at hc')
        rw [trimLeft_of_head? hbegins, List.reverse_append, trimLeft_append hafter',
          trimLeft_of_head? hends, List.reverse_reverse]

end WordMachine.Text
