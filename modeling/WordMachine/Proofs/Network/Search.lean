import WordMachine.Network.Search
import WordMachine.Proofs.Arrangement.Generator

/-!
# The search for the strongest signal

A network that runs to its end does so with any larger amount of fuel as well, so it makes sense to
say what a network yields (`Network.Yields`). The search tries the arrangements of the phase values by
their numbers. What it has found after some of them is the first of those with the strongest signal
(`Network.Leads`); a failure ends it. `Network.search_strongest` says what comes of that in terms of
rearrangements and orders of positions.

The search may also be written as a loop over the listed arrangements that starts from a seed without
phases. `Network.search_eq_searchOver` says that this comes to the same.
-/

namespace WordMachine.Network

open Arrangement

variable {wiring : Wiring} {image : Image} {images : List Image} {phases p : List Int}
  {n n' : Network} {later : List Process} {moved : Bool} {fuel : Nat}

/-! ## More fuel -/

theorem settleFrom_add (more : Nat) : settleFrom fuel later moved n = some n' →
    settleFrom (fuel + more) later moved n = some n' := by
  intro h
  induction fuel generalizing later moved n with
  | zero => cases h
  | succ fuel ih =>
      rw [Nat.succ_add]
      cases later with
      | nil =>
          cases moved with
          | false => exact h
          | true => exact ih h
      | cons process later =>
          unfold settleFrom at h ⊢
          rcases hadvance : n.advance process with ⟨m, hasMoved⟩
          rw [hadvance] at h
          cases hasMoved with
          | true => exact ih h
          | false => exact ih h

/-- A run that has ended ends alike with more fuel, so fuel is no part of the answer. -/
theorem run_add (more : Nat) {verdict : Verdict NetworkResult} :
    run fuel wiring images phases = some verdict →
      run (fuel + more) wiring images phases = some verdict := by
  intro h
  unfold run at h ⊢
  split
  · rename_i hshape
    rwa [if_pos hshape] at h
  · rename_i hshape
    rw [if_neg hshape] at h
    rcases Option.map_eq_some_iff.mp h with ⟨m, hsettle, hverdict⟩
    exact Option.map_eq_some_iff.mpr ⟨m, settleFrom_add more hsettle, hverdict⟩

theorem searchFrom_congr {runs runs' : List Int → Option (Verdict NetworkResult)}
    (hruns : ∀ p verdict, runs p = some verdict → runs' p = some verdict) {left number : Nat}
    {best : Option Best} {verdict : Verdict Best} :
    searchFrom runs phases left number best = some verdict →
      searchFrom runs' phases left number best = some verdict := by
  intro h
  induction left generalizing number best with
  | zero => cases best <;> exact h
  | succ left ih =>
      cases hrun : runs (nth phases number) with
      | none => simp [searchFrom, hrun] at h
      | some found =>
          simp only [searchFrom, hrun] at h
          simp only [searchFrom, hruns _ _ hrun]
          rcases found with (why | result) | _
          · exact h
          · exact ih h
          · exact h

theorem search_add (more : Nat) {verdict : Verdict Best} :
    search fuel wiring image phases = some verdict →
      search (fuel + more) wiring image phases = some verdict := by
  intro h
  unfold search at h ⊢
  split
  · rename_i hempty
    rwa [if_pos hempty] at h
  · rename_i hempty
    rw [if_neg hempty] at h
    exact searchFrom_congr (fun _ _ => run_add more) h

/-- As many copies of a program as there are phases come to their end with the given result. -/
def Yields (wiring : Wiring) (image : Image) (phases : List Int)
    (result : Except Fault NetworkResult) : Prop :=
  ∃ fuel, runCopies fuel wiring image phases = some (.finished result)

/-- What a run comes to does not depend on the fuel that it is given. -/
theorem Yields.unique {result result' : Except Fault NetworkResult}
    (h : Yields wiring image p result) (h' : Yields wiring image p result') : result = result' := by
  rcases h with ⟨fuel, hrun⟩
  rcases h' with ⟨fuel', hrun'⟩
  have hmore : runCopies (fuel + fuel') wiring image p = some (.finished result) := run_add fuel' hrun
  have hmore' : runCopies (fuel + fuel') wiring image p = some (.finished result') := by
    rw [Nat.add_comm]
    exact run_add fuel hrun'
  rw [hmore] at hmore'
  cases hmore'
  rfl

/-! ## Trying one arrangement after another -/

section Trying

variable {runs : List Int → Option (Verdict NetworkResult)} {left number k : Nat} {best : Best}
  {found : Option Best} {result : NetworkResult}

def Signals (runs : List Int → Option (Verdict NetworkResult)) (p : List Int) : Prop :=
  ∃ r, runs p = some (.finished (.ok r))

/-- Of the arrangements before the given number, which all lead to a signal, `best` is the first of
those with the strongest one. Its own number is `k`. -/
structure Leads (runs : List Int → Option (Verdict NetworkResult)) (phases : List Int) (number : Nat)
    (best : Best) (k : Nat) : Prop where
  tried : k < number
  phases_eq : best.phases = nth phases k
  own : ∃ r, runs best.phases = some (.finished (.ok r)) ∧ r.signal = best.signal
  leads : ∀ j, j < number → ∃ r, runs (nth phases j) = some (.finished (.ok r)) ∧
    r.signal ≤ best.signal ∧ (r.signal = best.signal → k ≤ j)

def Found (runs : List Int → Option (Verdict NetworkResult)) (phases : List Int) (number : Nat) :
    Option Best → Prop
  | none => number = 0
  | some best => ∃ k, Leads runs phases number best k

/-- The step of the search: a later candidate wins only with a stronger signal, so the first of
equals stays. -/
theorem Found.improve (h : Found runs phases number found)
    (hrun : runs (nth phases number) = some (.finished (.ok result))) :
    Found runs phases (number + 1) (some (Best.improve found ⟨result.signal, nth phases number⟩)) := by
  cases found with
  | none =>
      have hzero : number = 0 := h
      subst hzero
      refine ⟨0, Nat.one_pos, rfl, ⟨result, hrun, rfl⟩, ?_⟩
      intro j hj
      have hj : j = 0 := Nat.lt_one_iff.mp hj
      subst hj
      exact ⟨result, hrun, le_refl _, fun _ => Nat.le_refl 0⟩
  | some best =>
      rcases h with ⟨k, hbest⟩
      simp only [Best.improve]
      -- The next arrangement wins only with a stronger signal.
      by_cases hstronger : best.signal < result.signal
      · rw [if_pos hstronger]
        refine ⟨number, Nat.lt_succ_self number, rfl, ⟨result, hrun, rfl⟩, ?_⟩
        intro j hj
        rcases Nat.lt_succ_iff_lt_or_eq.mp hj with hj | rfl
        · rcases hbest.leads j hj with ⟨r, hr, hle, -⟩
          exact ⟨r, hr, (hle.trans_lt hstronger).le, fun heq => absurd heq (hle.trans_lt hstronger).ne⟩
        · exact ⟨result, hrun, le_refl _, fun _ => Nat.le_refl j⟩
      · rw [if_neg hstronger]
        refine ⟨k, hbest.tried.trans (Nat.lt_succ_self number), hbest.phases_eq, hbest.own, ?_⟩
        intro j hj
        rcases Nat.lt_succ_iff_lt_or_eq.mp hj with hj | rfl
        · exact hbest.leads j hj
        · exact ⟨result, hrun, not_lt.mp hstronger, fun _ => hbest.tried.le⟩

theorem Found.signals (h : Found runs phases number found) :
    ∀ j, j < number → Signals runs (nth phases j) := by
  intro j hj
  cases found with
  | none =>
      have hzero : number = 0 := h
      omega
  | some best =>
      rcases h with ⟨k, hbest⟩
      rcases hbest.leads j hj with ⟨r, hr, -⟩
      exact ⟨r, hr⟩

/-- If every run comes to its end that is started, the search finds the first arrangement with the
strongest signal, or fails with the first arrangement that fails. -/
theorem searchFrom_eq (h : Found runs phases number found) (hsome : 0 < number + left)
    (hstarted : ∀ k, k < number + left → (∀ j, j < k → Signals runs (nth phases j)) →
      ∃ result, runs (nth phases k) = some (.finished result)) :
    (∃ best, searchFrom runs phases left number found = some (.finished (.ok best)) ∧
      Found runs phases (number + left) (some best)) ∨
    ∃ k why, k < number + left ∧
      searchFrom runs phases left number found = some (.finished (.error why)) ∧
      runs (nth phases k) = some (.finished (.error why)) ∧
      ∀ j, j < k → Signals runs (nth phases j) := by
  induction left generalizing number found with
  | zero =>
      cases found with
      | none =>
          have hzero : number = 0 := h
          omega
      | some best => exact .inl ⟨best, rfl, h⟩
  | succ left ih =>
      have hnumber : number < number + (left + 1) := Nat.lt_add_of_pos_right (Nat.succ_pos left)
      have hnext : number + (left + 1) = number + 1 + left := by omega
      -- Everything before has led to a signal, so this run is started.
      rcases hstarted number hnumber h.signals with ⟨result, hrun⟩
      unfold searchFrom
      simp only [hrun]
      cases result with
      | error why => exact .inr ⟨number, why, hnumber, rfl, hrun, h.signals⟩
      | ok result =>
          rw [hnext] at hsome hstarted ⊢
          exact ih (h.improve hrun) hsome hstarted

end Trying

/-! ## One loop over all arrangements -/

/-- The better of two. What has no phases is only a seed, and gives way to any candidate. -/
def keepBetter (best candidate : Best) : Best :=
  if best.phases.length = 0 ∨ best.signal < candidate.signal then candidate else best

/-- The search as a loop over listed arrangements. -/
def searchOver (runs : List Int → Option (Verdict NetworkResult)) :
    List (List Int) → Best → Option (Verdict Best)
  | [], best => some (.finished (.ok best))
  | arrangement :: later, best =>
    match runs arrangement with
    | none => none
    | some .deadlock => some .deadlock
    | some (.finished (.error why)) => some (.finished (.error why))
    | some (.finished (.ok result)) =>
      searchOver runs later (keepBetter best ⟨result.signal, arrangement⟩)

/-- A seed without phases loses to the first candidate, whatever its signal. So it is as good as no
seed at all, as long as candidates have phases. -/
theorem keepBetter_seed {found : Option Best} (h : ∀ best ∈ found, best.phases ≠ [])
    (candidate : Best) :
    keepBetter (found.getD ⟨0, []⟩) candidate = Best.improve found candidate := by
  cases found with
  | none => rfl
  | some best =>
      have hphases : ¬ best.phases.length = 0 := fun hzero =>
        h best rfl (List.length_eq_zero_iff.mp hzero)
      simp only [keepBetter, Option.getD_some, hphases, false_or, Best.improve]

/-- Having found nothing so far is having found the seed, as long as something is still to be tried. -/
theorem searchFrom_eq_searchOver {runs : List Int → Option (Verdict NetworkResult)}
    {left number : Nat} {found : Option Best} (hfound : ∀ best ∈ found, best.phases ≠ [])
    (hleft : found = none → 0 < left) (hnth : ∀ k, k < number + left → nth phases k ≠ []) :
    searchFrom runs phases left number found =
      searchOver runs ((List.range' number left).map (nth phases)) (found.getD ⟨0, []⟩) := by
  induction left generalizing number found with
  | zero =>
      cases found with
      | none => exact absurd (hleft rfl) (Nat.lt_irrefl 0)
      | some best => rfl
  | succ left ih =>
      rw [List.range'_succ, List.map_cons]
      rcases hrun : runs (nth phases number) with _ | ((why | result) | _)
      · simp only [searchFrom, searchOver, hrun]
      · simp only [searchFrom, searchOver, hrun]
      · have hnext : ∀ best ∈ some (Best.improve found ⟨result.signal, nth phases number⟩),
            best.phases ≠ [] := by
          have hhere := hnth number (Nat.lt_add_of_pos_right (Nat.succ_pos left))
          rintro best hbest
          cases hbest
          unfold Best.improve
          split
          · exact hhere
          · rename_i best
            split
            · exact hhere
            · exact hfound best rfl
        simp only [searchFrom, searchOver, hrun, keepBetter_seed hfound]
        exact ih hnext nofun fun k hk => hnth k (by omega)
      · simp only [searchFrom, searchOver, hrun]

/-- The search is one loop over the generated arrangements, which starts with a seed. -/
theorem search_eq_searchOver (fuel : Nat) (wiring : Wiring) (image : Image) (phases : List Int) :
    search fuel wiring image phases =
      if phases.length = 0 then some (.finished (.error .nothingToSearch))
      else searchOver (runCopies fuel wiring image) (generate phases) ⟨0, []⟩ := by
  unfold search
  cases phases with
  | nil => rfl
  | cons phase phases =>
      have hnth : ∀ k, k < 0 + count (phase :: phases).length → nth (phase :: phases) k ≠ [] := by
        intro k hk hempty
        rw [Nat.zero_add] at hk
        have hperm : (nth (phase :: phases) k).Perm (phase :: phases) := nthOf_perm rfl hk
        exact List.cons_ne_nil _ _ (List.nil_perm.mp (hempty ▸ hperm))
      rw [generate_eq, List.range_eq_range']
      exact searchFrom_eq_searchOver nofun (fun _ => count_pos _) hnth

/-! ## What the search comes to -/

/-- No arrangement of the phase values leads to a stronger signal than `best` does, and none that comes
before it in the order of positions to one as strong. -/
structure Strongest (wiring : Wiring) (image : Image) (phases : List Int) (best : Best) : Prop where
  rearranged : best.phases.Perm phases
  own : ∃ r, Yields wiring image best.phases (.ok r) ∧ r.signal = best.signal
  strongest : ∀ p, p.Perm phases → ∃ r, Yields wiring image p (.ok r) ∧ r.signal ≤ best.signal
  first : ∃ σ : Positions phases.length, σ.arrange phases = best.phases ∧
    ∀ τ r, Yields wiring image (τ.arrange phases) (.ok r) → r.signal = best.signal →
      σ = τ ∨ σ.Before τ

/-- The arrangement in the given order of positions fails, and each one before leads to a signal. -/
structure FailsFirst (wiring : Wiring) (image : Image) (phases : List Int)
    (σ : Positions phases.length) (why : Fault) : Prop where
  fails : Yields wiring image (σ.arrange phases) (.error why)
  before : ∀ τ : Positions phases.length, τ.Before σ →
    ∃ r, Yields wiring image (τ.arrange phases) (.ok r)

/-- Every run that the search starts comes to its end. It starts the run of an arrangement once those
before it have led to a signal. -/
def Completes (wiring : Wiring) (image : Image) (phases : List Int) : Prop :=
  ∀ σ : Positions phases.length,
    (∀ τ : Positions phases.length, τ.Before σ →
      ∃ r, Yields wiring image (τ.arrange phases) (.ok r)) →
    ∃ result, Yields wiring image (σ.arrange phases) result

/-- At the end of the search the leader is the strongest of all, and the first of those. -/
theorem Leads.strongest {best : Best} {k : Nat}
    (h : Leads (runCopies fuel wiring image) phases (count phases.length) best k) :
    Strongest wiring image phases best := by
  have hbest : (Positions.nth ⟨k, h.tried⟩).arrange phases = best.phases :=
    (Positions.arrange_nth phases ⟨k, h.tried⟩).trans h.phases_eq.symm
  refine ⟨?_, ?_, ?_, Positions.nth ⟨k, h.tried⟩, hbest, ?_⟩
  · rw [← hbest]
    exact Positions.arrange_perm phases _
  · rcases h.own with ⟨r, hrun, hsignal⟩
    exact ⟨r, ⟨fuel, hrun⟩, hsignal⟩
  · intro p hp
    rcases exists_nthOf hp with ⟨j, hj, rfl⟩
    rcases h.leads j hj with ⟨r, hrun, hle, -⟩
    exact ⟨r, ⟨fuel, hrun⟩, hle⟩
  · intro τ r hr hsignal
    rcases τ.exists_nth with ⟨j, rfl⟩
    rcases h.leads j j.isLt with ⟨r', hrun, -, hfirst⟩
    rw [Positions.arrange_nth] at hr
    cases hr.unique ⟨fuel, hrun⟩
    rcases Nat.lt_or_eq_of_le (hfirst hsignal) with hlt | heq
    · exact .inr (Positions.before_of_lt hlt)
    · exact .inl (congrArg Positions.nth (Fin.ext heq))

/-- The runs that a search starts are finitely many, so there is fuel for all of them. -/
theorem exists_fuel (hcompletes : Completes wiring image phases) (number : Nat)
    (hnumber : number ≤ count phases.length) :
    ∃ fuel, ∀ k, k < number →
      (∀ j, j < k → ∃ r, Yields wiring image (nth phases j) (.ok r)) →
        ∃ result, runCopies fuel wiring image (nth phases k) = some (.finished result) := by
  induction number with
  | zero => exact ⟨0, fun k hk => absurd hk (Nat.not_lt_zero k)⟩
  | succ number ih =>
      rcases ih (Nat.le_of_succ_le hnumber) with ⟨fuel, hfuel⟩
      by_cases hbefore : ∀ j, j < number → ∃ r, Yields wiring image (nth phases j) (.ok r)
      · have hlast : ∃ result, Yields wiring image (nth phases number) result := by
          rw [← Positions.arrange_nth phases ⟨number, hnumber⟩]
          refine hcompletes _ ?_
          intro τ hτ
          rcases τ.exists_nth with ⟨j, rfl⟩
          rw [Positions.arrange_nth]
          exact hbefore j (Positions.before_nth_iff.mp hτ)
        rcases hlast with ⟨result, more, hrun⟩
        refine ⟨fuel + more, ?_⟩
        intro k hk hok
        rcases Nat.lt_succ_iff_lt_or_eq.mp hk with hk | rfl
        · rcases hfuel k hk hok with ⟨result, hrun⟩
          exact ⟨result, run_add more hrun⟩
        · rw [Nat.add_comm]
          exact ⟨result, run_add fuel hrun⟩
      · -- The last run is not started.
        refine ⟨fuel, ?_⟩
        intro k hk hok
        rcases Nat.lt_succ_iff_lt_or_eq.mp hk with hk | rfl
        · exact hfuel k hk hok
        · exact absurd hok hbefore

/-- If all runs that the search starts come to their end, so does the search. -/
theorem exists_search_eq (hphases : phases ≠ []) (hcompletes : Completes wiring image phases) :
    (∃ fuel best, search fuel wiring image phases = some (.finished (.ok best)) ∧
      Strongest wiring image phases best) ∨
    ∃ fuel σ why, search fuel wiring image phases = some (.finished (.error why)) ∧
      FailsFirst wiring image phases σ why := by
  rcases exists_fuel hcompletes _ (Nat.le_refl _) with ⟨fuel, hfuel⟩
  have hsearch : search fuel wiring image phases =
      searchFrom (runCopies fuel wiring image) phases (count phases.length) 0 none := by
    simp [search, hphases]
  have hends : ∀ k, k < 0 + count phases.length →
      (∀ j, j < k → Signals (runCopies fuel wiring image) (nth phases j)) →
        ∃ result, runCopies fuel wiring image (nth phases k) = some (.finished result) := by
    intro k hk hok
    rw [Nat.zero_add] at hk
    refine hfuel k hk ?_
    intro j hj
    rcases hok j hj with ⟨r, hrun⟩
    exact ⟨r, fuel, hrun⟩
  have hsome : 0 < 0 + count phases.length := (Nat.zero_add _).symm ▸ count_pos phases.length
  have hnone : Found (runCopies fuel wiring image) phases 0 none := rfl
  have htry := searchFrom_eq hnone hsome hends
  rw [Nat.zero_add, ← hsearch] at htry
  rcases htry with ⟨best, hfound, k, hleads⟩ | ⟨k, why, hk, hfailed, hrun, hok⟩
  · exact .inl ⟨fuel, best, hfound, hleads.strongest⟩
  · refine .inr ⟨fuel, Positions.nth ⟨k, hk⟩, why, hfailed, ?_, ?_⟩
    · rw [Positions.arrange_nth]
      exact ⟨fuel, hrun⟩
    · intro τ hτ
      rcases τ.exists_nth with ⟨j, rfl⟩
      rw [Positions.arrange_nth]
      rcases hok j (Positions.before_nth_iff.mp hτ) with ⟨r, hr⟩
      exact ⟨r, fuel, hr⟩

/-- The search is an exact maximum over the rearrangements of the phase values. It comes to one outcome
with any fuel that is enough. If every rearrangement leads to a signal, this is the strongest one, with
the first arrangement that reaches it; else it is the error of the first arrangement that fails. -/
theorem search_strongest (hphases : phases ≠ []) (hcompletes : Completes wiring image phases) :
    ∃ outcome,
      (∃ fuel, ∀ more, search (fuel + more) wiring image phases = some (.finished outcome)) ∧
      (∀ fuel verdict, search fuel wiring image phases = some verdict →
        verdict = .finished outcome) ∧
      ((∀ p, p.Perm phases → ∃ r, Yields wiring image p (.ok r)) →
        ∃ best, outcome = .ok best ∧ Strongest wiring image phases best) ∧
      ((∃ p why, p.Perm phases ∧ Yields wiring image p (.error why)) →
        ∃ σ why, outcome = .error why ∧ FailsFirst wiring image phases σ why) := by
  have hone : ∀ {fuel outcome}, search fuel wiring image phases = some (.finished outcome) →
      ∀ fuel' verdict, search fuel' wiring image phases = some verdict →
        verdict = .finished outcome := by
    intro fuel outcome hsearch fuel' verdict hsearch'
    have hmore := search_add fuel' hsearch
    rw [Nat.add_comm, search_add fuel hsearch'] at hmore
    exact Option.some.inj hmore
  rcases exists_search_eq hphases hcompletes with
    ⟨fuel, best, hsearch, hbest⟩ | ⟨fuel, σ, why, hsearch, hfails⟩
  · refine ⟨.ok best, ⟨fuel, fun more => search_add more hsearch⟩, hone hsearch,
      fun _ => ⟨best, rfl, hbest⟩, ?_⟩
    -- No rearrangement fails: each of them leads to a signal.
    rintro ⟨p, why, hp, hfail⟩
    rcases hbest.strongest p hp with ⟨r, hr, -⟩
    cases hfail.unique hr
  · refine ⟨.error why, ⟨fuel, fun more => search_add more hsearch⟩, hone hsearch, ?_,
      fun _ => ⟨σ, why, rfl, hfails⟩⟩
    intro hall
    rcases hall _ (Positions.arrange_perm phases σ) with ⟨r, hr⟩
    cases hfails.fails.unique hr

/-- A program that puts out its phase and twice its signal: both arrangements of two negative phases
lead to a negative signal, the second to the stronger one. -/
theorem search_strongest_negative :
    [-2, -1] ≠ ([] : List Int) ∧
      Completes {} (Image.ofIntegers [3, 15, 3, 16, 1, 15, 16, 15, 1, 15, 16, 15, 4, 15, 99])
        [-2, -1] ∧
      search 100 {} (Image.ofIntegers [3, 15, 3, 16, 1, 15, 16, 15, 1, 15, 16, 15, 4, 15, 99])
        [-2, -1] = some (.finished (.ok ⟨-4, [-1, -2]⟩)) ∧
      Strongest {} (Image.ofIntegers [3, 15, 3, 16, 1, 15, 16, 15, 1, 15, 16, 15, 4, 15, 99])
        [-2, -1] ⟨-4, [-1, -2]⟩ := by
  generalize himage : Image.ofIntegers [3, 15, 3, 16, 1, 15, 16, 15, 1, 15, 16, 15, 4, 15, 99] = image
  have hsome : [-2, -1] ≠ ([] : List Int) := List.cons_ne_nil (-2) [-1]
  have hweak : ∃ r, Yields {} image [-2, -1] (.ok r) := by
    rw [← himage]
    exact ⟨_, 100, rfl⟩
  have hstrong : ∃ r, Yields {} image [-1, -2] (.ok r) := by
    rw [← himage]
    exact ⟨_, 100, rfl⟩
  have hsearch : search 100 {} image [-2, -1] = some (.finished (.ok ⟨-4, [-1, -2]⟩)) := by
    rw [← himage]
    rfl
  have hall : ∀ p, p.Perm [-2, -1] → ∃ r, Yields {} image p (.ok r) := by
    intro p hp
    rcases exists_nthOf hp with ⟨k, hk, rfl⟩
    match k, hk with
    | 0, _ => exact hweak
    | 1, _ => exact hstrong
  have hcompletes : Completes {} image [-2, -1] := by
    intro σ _
    rcases hall _ (Positions.arrange_perm [-2, -1] σ) with ⟨r, hr⟩
    exact ⟨.ok r, hr⟩
  rcases search_strongest hsome hcompletes with ⟨outcome, -, hone, hbest, -⟩
  rcases hbest hall with ⟨best, rfl, hstrongest⟩
  cases hone 100 _ hsearch
  exact ⟨hsome, hcompletes, hsearch, hstrongest⟩

end WordMachine.Network
