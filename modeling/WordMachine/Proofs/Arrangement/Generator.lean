import WordMachine.Proofs.Arrangement.Enumeration

/-!
# Arrangements one after another

The arrangements of a list can be generated without their numbers: each item in turn stands first, before
all arrangements of the others. This is `generate`, and `take_eq_generate` says that taking arrangements by
their numbers is taking what is generated first.
-/

namespace WordMachine.Arrangement

variable {α : Type} {n : Nat}

/-- The arrangements of a list, by recursion on its length. A list of at most one item is its only
arrangement. -/
def generate (items : List α) : List (List α) :=
  if items.length ≤ 1 then [items]
  else
    (List.finRange items.length).flatMap fun (i : Fin items.length) =>
      (generate (items.take i ++ items.drop (i + 1))).map (items.get i :: ·)
termination_by items.length
decreasing_by
  have hi := i.isLt
  simp only [List.length_append, List.length_take, List.length_drop]
  omega

/-- The numbers below a product, by quotient and remainder. -/
theorem range_mul (a b : Nat) :
    List.range (a * b) = (List.range a).flatMap fun i => (List.range b).map (i * b + ·) := by
  induction a with
  | zero => simp
  | succ a ih =>
      rw [Nat.succ_mul, List.range_add, ih, List.range_succ, List.flatMap_append]
      simp

/-- The arrangements that begin with the item at a position. -/
theorem nth_of_first {items : List α} (hlength : items.length = n + 1) (i : Fin items.length) {r : Nat}
    (hr : r < count n) :
    nth items (i * count n + r) = items.get i :: nth (items.take i ++ items.drop (i + 1)) r := by
  have hdiv : (i * count n + r) / count n = i := by
    rw [Nat.add_comm, Nat.add_mul_div_right r i (count_pos n), Nat.div_eq_of_lt hr, Nat.zero_add]
  have hmod : (i * count n + r) % count n = r := by
    rw [Nat.add_comm, Nat.add_mul_mod_self_right, Nat.mod_eq_of_lt hr]
  have hrest : (items.eraseIdx i).length = n := length_eraseIdx hlength i.isLt
  have hget : items[(i : Nat)]? = some (items.get i) := List.getElem?_eq_getElem i.isLt
  rw [← List.eraseIdx_eq_take_drop_succ]
  simp only [nth, hlength, hrest, nthOf, hdiv, hmod, hget]

theorem generate_eq (items : List α) :
    generate items = (List.range (count items.length)).map (nth items) := by
  generalize hlength : items.length = n
  induction n generalizing items with
  | zero =>
      rw [generate, if_pos (by omega), List.length_eq_zero_iff.mp hlength]
      rfl
  | succ n ih =>
      rw [generate]
      split
      · rename_i hone
        have hzero : n = 0 := by omega
        subst hzero
        exact congrArg (fun p => [p]) (nthOf_zero items).symm
      · have hrest : ∀ i : Fin items.length, (items.take i ++ items.drop (i + 1)).length = n := by
          intro i
          rw [← List.eraseIdx_eq_take_drop_succ]
          exact length_eraseIdx hlength i.isLt
        have hpositions : List.range (n + 1) = (List.finRange items.length).map Fin.val := by
          rw [List.map_coe_finRange_eq_range, hlength]
        rw [count, range_mul, List.map_flatMap, hpositions, List.flatMap_map]
        refine List.flatMap_congr fun i _ => ?_
        rw [ih _ (hrest i), List.map_map, List.map_map]
        refine List.map_congr_left fun r hr => ?_
        exact (nth_of_first hlength i (List.mem_range.mp hr)).symm

/-- The first arrangements by their numbers are those that are generated first. -/
theorem take_eq_generate (limit : Nat) (items : List α) :
    take limit items = (generate items).take limit := by
  rw [generate_eq, ← List.map_take, List.take_range, take]

end WordMachine.Arrangement
