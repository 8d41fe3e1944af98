import Mathlib.Data.List.FinRange
import Mathlib.Data.List.Lex
import Mathlib.Data.List.Perm.Basic
import WordMachine.Arrangement

/-!
# Arrangements and positions

An arrangement of a list takes its items in some order of their positions. `Positions n` is the type of
these orders, and `Positions.Before` compares two of them lexicographically. The numbers of the
arrangements count through all of them, each once and in this order:

* `Positions.arrange_nth`: the arrangement with a number takes the items in the order with this number;
* `Positions.exists_nth`: every order has a number;
* `Positions.before_nth_iff`: earlier orders have lower numbers.
-/

namespace WordMachine.Arrangement

variable {α β : Type} {items p : List α} {n j k : Nat}

/-! ## Numbers -/

theorem count_pos (n : Nat) : 0 < count n := by
  induction n with
  | zero => exact Nat.one_pos
  | succ n ih => exact Nat.mul_pos (Nat.succ_pos n) ih

/-- A number splits into the position of the first item and the number of the others. -/
theorem nthOf_succ (hlength : items.length = n + 1) (hk : k < count (n + 1)) :
    ∃ hfirst : k / count n < items.length,
      nthOf (n + 1) items k =
        items[k / count n] :: nthOf n (items.eraseIdx (k / count n)) (k % count n) := by
  have hfirst : k / count n < items.length := by
    rw [hlength]
    exact (Nat.div_lt_iff_lt_mul (count_pos n)).mpr hk
  refine ⟨hfirst, ?_⟩
  simp [nthOf, List.getElem?_eq_getElem hfirst]

theorem length_eraseIdx (hlength : items.length = n + 1) (hj : j < items.length) :
    (items.eraseIdx j).length = n := by
  rw [List.length_eraseIdx_of_lt hj, hlength, Nat.add_sub_cancel]

/-- No number leads to an arrangement that drops an item or takes one twice. -/
theorem nthOf_perm (hlength : items.length = n) (hk : k < count n) :
    (nthOf n items k).Perm items := by
  induction n generalizing items k with
  | zero =>
      rw [List.length_eq_zero_iff.mp hlength]
      exact List.Perm.nil
  | succ n ih =>
      rcases nthOf_succ hlength hk with ⟨hfirst, hnth⟩
      have hrest := ih (length_eraseIdx hlength hfirst) (Nat.mod_lt k (count_pos n))
      rw [hnth]
      exact (hrest.cons _).trans (List.getElem_cons_eraseIdx_perm hfirst)

/-- Numbers are given out in lexicographic order. `r` is any order in which the items stand already. -/
theorem nthOf_lex {r : α → α → Prop} (hsorted : items.Pairwise r) (hlength : items.length = n)
    (hjk : j < k) (hk : k < count n) : List.Lex r (nthOf n items j) (nthOf n items k) := by
  induction n generalizing items j k with
  | zero =>
      have hone : k < 1 := hk
      omega
  | succ n ih =>
      rcases nthOf_succ hlength (hjk.trans hk) with ⟨hj₁, hj⟩
      rcases nthOf_succ hlength hk with ⟨hk₁, hk⟩
      rw [hj, hk]
      have hfirst : j / count n ≤ k / count n := Nat.div_le_div_right hjk.le
      rcases Nat.lt_or_eq_of_le hfirst with hlt | heq
      · exact List.Lex.rel (List.pairwise_iff_getElem.mp hsorted _ _ hj₁ hk₁ hlt)
      · -- The same first item: the remainders compare as the numbers do.
        have hrest : j % count n < k % count n := by
          have hjsplit := Nat.div_add_mod j (count n)
          have hksplit := Nat.div_add_mod k (count n)
          rw [heq] at hjsplit
          omega
        simp only [heq]
        exact List.Lex.cons (ih (hsorted.sublist (List.eraseIdx_sublist items _))
          (length_eraseIdx hlength hk₁) hrest (Nat.mod_lt k (count_pos n)))

/-- Every arrangement has a number. With `nthOf_lex` there is only one for each if the items differ. -/
theorem exists_nthOf (hperm : p.Perm items) :
    ∃ k, k < count items.length ∧ nthOf items.length items k = p := by
  induction p generalizing items with
  | nil =>
      rw [List.nil_perm.mp hperm]
      exact ⟨0, Nat.one_pos, rfl⟩
  | cons a p ih =>
      -- The first item's position is the quotient, the number of the others the remainder.
      rcases List.getElem_of_mem (hperm.mem_iff.mp List.mem_cons_self) with ⟨i, hi, rfl⟩
      have hlength : items.length = (items.eraseIdx i).length + 1 := by
        rw [List.length_eraseIdx_of_lt hi]
        omega
      have hrest : p.Perm (items.eraseIdx i) :=
        (hperm.trans (List.getElem_cons_eraseIdx_perm hi).symm).cons_inv
      rcases ih hrest with ⟨r, hr, hnth⟩
      rw [hlength]
      generalize (items.eraseIdx i).length = n at hlength hr hnth
      have hdiv : (count n * i + r) / count n = i := by
        rw [Nat.mul_add_div (count_pos n), Nat.div_eq_of_lt hr, Nat.add_zero]
      have hmod : (count n * i + r) % count n = r := by
        rw [Nat.mul_add_mod, Nat.mod_eq_of_lt hr]
      have hcount : count n * i + r < count (n + 1) := by
        have hle : count n * (i + 1) ≤ count n * (n + 1) := Nat.mul_le_mul_left _ (by omega)
        calc
          count n * i + r
              < count n * i + count n := Nat.add_lt_add_left hr _
          _ = count n * (i + 1) := (Nat.mul_succ _ _).symm
          _ ≤ count n * (n + 1) := hle
          _ = count (n + 1) := Nat.mul_comm _ _
      refine ⟨count n * i + r, hcount, ?_⟩
      rcases nthOf_succ hlength hcount with ⟨hfirst, hcons⟩
      simp only [hdiv, hmod, hnth] at hcons
      exact hcons

/-- Arranging looks at positions alone, so it does not matter what stands at them. This is how facts
about positions become facts about items that may repeat. -/
theorem nthOf_map (f : α → β) (n : Nat) (items : List α) (k : Nat) :
    nthOf n (items.map f) k = (nthOf n items k).map f := by
  induction n generalizing items k with
  | zero => rfl
  | succ n ih =>
      simp only [nthOf, List.getElem?_map]
      cases items[k / count n]? with
      | none => rfl
      | some a => simp [List.eraseIdx_map, ih]

/-! ## Orders of positions -/

/-- An order in which to take `n` items: each of their positions once. -/
structure Positions (n : Nat) where
  toList : List (Fin n)
  perm : toList.Perm (List.finRange n)

namespace Positions

variable {σ τ : Positions n}

@[ext] theorem ext (h : σ.toList = τ.toList) : σ = τ := by
  rcases σ with ⟨toList, perm⟩
  cases h
  rfl

/-- One order comes before another in lexicographic order. -/
def Before (σ τ : Positions n) : Prop :=
  List.Lex (fun i j => i.val < j.val) σ.toList τ.toList

def arrange (items : List α) (σ : Positions items.length) : List α :=
  σ.toList.map items.get

def nth (k : Fin (count n)) : Positions n where
  toList := nthOf n (List.finRange n) k
  perm := nthOf_perm List.length_finRange k.isLt

theorem arrange_perm (items : List α) (σ : Positions items.length) :
    (σ.arrange items).Perm items := by
  have hall := σ.perm.map items.get
  rwa [List.map_get_finRange] at hall

/-- The arrangement with a number is what the order with that number makes of the items. -/
theorem arrange_nth (items : List α) (k : Fin (count items.length)) :
    (nth k).arrange items = Arrangement.nth items k := by
  have hmap := nthOf_map items.get items.length (List.finRange items.length) k
  rw [List.map_get_finRange] at hmap
  exact hmap.symm

/-- Numbers run through all orders. -/
theorem exists_nth (σ : Positions n) : ∃ k, nth k = σ := by
  rcases exists_nthOf σ.perm with ⟨k, hk, hnth⟩
  rw [List.length_finRange] at hk hnth
  exact ⟨⟨k, hk⟩, ext hnth⟩

theorem before_of_lt {j k : Fin (count n)} (h : j.val < k.val) : (nth j).Before (nth k) :=
  nthOf_lex (List.pairwise_lt_finRange n) List.length_finRange h k.isLt

theorem Before.asymm (h : σ.Before τ) : ¬ τ.Before σ := by
  have : Std.Asymm fun i j : Fin n => i.val < j.val := ⟨fun _ _ => Nat.lt_asymm⟩
  exact (List.Lex.asymm _).asymm _ _ h

/-- The order that comes first in the search is the lexicographically smaller one. -/
theorem before_nth_iff {j k : Fin (count n)} : (nth j).Before (nth k) ↔ j.val < k.val := by
  refine ⟨?_, before_of_lt⟩
  intro h
  rcases Nat.lt_trichotomy j.val k.val with hlt | heq | hgt
  · exact hlt
  · rw [Fin.ext heq] at h
    exact absurd h h.asymm
  · exact absurd h (before_of_lt hgt).asymm

end Positions

end WordMachine.Arrangement
