import Mathlib.Data.Nat.Factorial.Basic
import WordMachine.Proofs.Arrangement

/-!
# All arrangements

Taking the arrangements of a list is taking the orders of its positions, by their numbers, and the items
in each of these orders (`take_eq_map_orders`). So what is known of the numbers tells which arrangements
there are, how many, and in which order they come: `enumerates_orders`.
-/

namespace WordMachine.Arrangement

variable {α : Type} {n : Nat}

/-- `count` is defined by its recursion, so that the model needs no factorials. -/
theorem count_eq_factorial (n : Nat) : count n = n.factorial := by
  induction n with
  | zero => rfl
  | succ n ih => rw [count, ih, Nat.factorial_succ]

/-- The first arrangement leaves everything where it is. -/
theorem nthOf_zero (items : List α) : nthOf items.length items 0 = items := by
  induction items with
  | nil => rfl
  | cons a items ih => simp [nthOf, ih]

theorem length_take (limit : Nat) (items : List α) :
    (take limit items).length = min limit items.length.factorial := by
  rw [take, List.length_map, List.length_range, count_eq_factorial]

/-- The search begins with the items as they are given. -/
theorem head?_take_succ (limit : Nat) (items : List α) :
    (take (limit + 1) items).head? = some items := by
  have hsome : 0 < min (limit + 1) (count items.length) :=
    Nat.lt_min.mpr ⟨Nat.succ_pos limit, count_pos _⟩
  rw [take, List.head?_map, List.head?_range, if_neg (Nat.ne_of_gt hsome)]
  exact congrArg some (nthOf_zero items)

theorem take_perm {limit : Nat} {items p : List α} (h : p ∈ take limit items) : p.Perm items := by
  rcases List.mem_map.mp h with ⟨k, hk, rfl⟩
  exact nthOf_perm rfl (lt_of_lt_of_le (List.mem_range.mp hk) (Nat.min_le_right _ _))

/-- All orders of the first `n` positions, as they are taken. -/
def orders (n : Nat) : List (List (Fin n)) :=
  take n.factorial (List.finRange n)

theorem length_orders (n : Nat) : (orders n).length = n.factorial := by
  rw [orders, length_take, List.length_finRange, Nat.min_self]

/-- To arrange items is to arrange their positions. -/
theorem take_eq_map_orders (limit : Nat) (items : List α) :
    take limit items = ((orders items.length).take limit).map (fun p => p.map items.get) := by
  have hnth : ∀ k, nth items k = (nth (List.finRange items.length) k).map items.get := by
    intro k
    have hmap := nthOf_map items.get items.length (List.finRange items.length) k
    rw [List.map_get_finRange] at hmap
    rw [nth, nth, hmap, List.length_finRange]
  simp only [orders, take, List.length_finRange, count_eq_factorial, Nat.min_self,
    ← List.map_take, List.take_range, List.map_map]
  exact List.map_congr_left fun k _ => hnth k

namespace Positions

/-- The orders of the positions, by their numbers. -/
def all (n : Nat) : List (Positions n) :=
  (List.finRange (count n)).map nth

theorem mem_all (σ : Positions n) : σ ∈ all n := by
  rcases exists_nth σ with ⟨k, rfl⟩
  exact List.mem_map_of_mem (List.mem_finRange k)

/-- The listing is strictly increasing, hence without repetition. -/
theorem pairwise_all (n : Nat) : (all n).Pairwise Before :=
  List.pairwise_map.mpr ((List.pairwise_lt_finRange _).imp before_of_lt)

theorem map_toList_all (n : Nat) : (all n).map toList = orders n := by
  have hall : (List.finRange (count n)).map Fin.val = List.range (count n) :=
    List.map_coe_finRange_eq_range
  simp only [orders, take, List.length_finRange, count_eq_factorial, Nat.min_self]
  rw [← count_eq_factorial, ← hall, all, List.map_map, List.map_map]
  refine List.map_congr_left fun k _ => ?_
  simp only [Function.comp_apply, nth, Arrangement.nth, List.length_finRange]

end Positions

/-- An order of the positions is taken if and only if each position occurs in it once. -/
theorem mem_orders_iff {p : List (Fin n)} : p ∈ orders n ↔ p.Perm (List.finRange n) := by
  refine ⟨take_perm, ?_⟩
  intro hperm
  rw [← Positions.map_toList_all]
  exact List.mem_map_of_mem (Positions.mem_all ⟨p, hperm⟩)

/-- Orders of the positions are taken in lexicographic order. -/
theorem pairwise_orders (n : Nat) :
    (orders n).Pairwise (List.Lex fun i j => i.val < j.val) := by
  rw [← Positions.map_toList_all]
  exact List.pairwise_map.mpr (Positions.pairwise_all n)

theorem nodup_orders (n : Nat) : (orders n).Nodup := by
  have hasymm : Std.Asymm fun i j : Fin n => i.val < j.val := ⟨fun _ _ => Nat.lt_asymm⟩
  refine (pairwise_orders n).imp ?_
  rintro p _ hlex rfl
  exact (List.Lex.asymm _).asymm p p hlex hlex

/-- The arrangements of a list come from the orders of its positions. These are the rearrangements of
the positions, each of them once, in strictly increasing lexicographic order; there are as many as the
factorial says, and arranging items takes them one after another. So every arrangement has the same
items as the list, equal ones as often as they stand there, and the first one is the list itself. A list
without items has one arrangement, itself. -/
theorem enumerates_orders (items : List α) :
    (orders items.length).length = items.length.factorial ∧
    (∀ p, p ∈ orders items.length ↔ p.Perm (List.finRange items.length)) ∧
    (orders items.length).Nodup ∧
    (orders items.length).Pairwise (List.Lex fun i j => i.val < j.val) ∧
    (∀ limit, take limit items = ((orders items.length).take limit).map (fun p => p.map items.get)) ∧
    (∀ limit, (take limit items).length = min limit items.length.factorial) ∧
    (∀ limit, ∀ p ∈ take limit items, p.Perm items) ∧
    (∀ limit, (take (limit + 1) items).head? = some items) ∧
    ∀ limit, take (limit + 1) ([] : List α) = [[]] := by
  refine ⟨length_orders _, fun _ => mem_orders_iff, nodup_orders _, pairwise_orders _,
    (take_eq_map_orders · items), (length_take · items), fun _ _ => take_perm,
    (head?_take_succ · items), ?_⟩
  intro limit
  have hone : min (limit + 1) (count 0) = 1 := Nat.min_eq_right (Nat.le_add_left 1 limit)
  simp [take, nth, nthOf, hone]

/-- Three items of which two are equal: every arrangement comes twice. -/
theorem enumerates_orders_twins :
    take 6 [7, 7, 8] = [[7, 7, 8], [7, 8, 7], [7, 7, 8], [7, 8, 7], [8, 7, 7], [8, 7, 7]] ∧
      [8, 7, 7] ∈ take 6 [7, 7, 8] ∧ [8, 7, 7].Perm [7, 7, 8] := by
  have hmem : [8, 7, 7] ∈ take 6 [7, 7, 8] := by decide
  exact ⟨by decide, hmem, (enumerates_orders [7, 7, 8]).2.2.2.2.2.2.1 6 _ hmem⟩

end WordMachine.Arrangement
