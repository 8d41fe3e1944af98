import Mathlib.Algebra.Group.Nat.Defs
import WordMachine.Proofs.Memory.History

/-!
# How the buffer grows

A read or a write at an address that the buffer does not cover moves the buffer into a longer one, as
long as the address is below the limit. The room laid out is at least twice the present length and
one word more, or it is all the room there can be, and from this the rest follows:

* `Memory.copyInto?_reach` says that the words always fit into the room that is laid out for them;
* `Memory.lengthChanges_le_iff` counts how often a buffer of a given length can still change its
  length. The count is exact, because reading the first address that is not covered makes no more
  room than any change has to make;
* `Memory.grows_rarely` puts together what becomes of the buffer over the life of a memory.
-/

namespace WordMachine

/-- The address that an access makes room for. Looking at a memory makes no room. -/
def Access.reached? : Access → Option Nat
  | .read a => some a
  | .write a _ => some a
  | .peek _ => none
  | .snapshot => none

namespace Memory

variable {m : Memory} {x : Access} {a k : Nat}

/-! ## Room for one address -/

theorem reach_reach (m : Memory) (a : Nat) : (m.reach a).reach a = m.reach a := by
  rcases Nat.lt_or_ge a denseLimit with hlow | hfar
  · exact reach_of_covered (Or.inl (lt_length_reach hlow))
  · exact reach_of_covered (Or.inr hfar)

/-- The room laid out for an address that is not covered exceeds twice the present length, unless it is
cut off at the limit. -/
theorem doubles_or_eq_denseLimit (length : Nat) (hout : length ≤ a) :
    2 * length + 1 ≤ grownLength length a ∨ grownLength length a = denseLimit := by
  unfold grownLength
  omega

/-- Copies words to the front of a buffer that has been laid out for them. There is no result if they do
not fit into it. -/
def copyInto? (words room : Array Word) : Option (Array Word) :=
  if words.size ≤ room.size then some (words ++ room.extract words.size) else none

/-- The words fit into the longer buffer, and copying them there is how it is filled. -/
theorem copyInto?_reach (hout : m.length ≤ a) (hlow : a < denseLimit) :
    copyInto? m.dense (Array.replicate (grownLength m.length a) 0) = some (m.reach a).dense := by
  have hfits : m.dense.size ≤ (Array.replicate (grownLength m.length a) (0 : Word)).size := by
    rw [Array.size_replicate]
    exact Nat.le_of_lt (Nat.lt_of_le_of_lt hout (lt_grownLength m.length hlow))
  rw [copyInto?, if_pos hfits, reach_of_uncovered hout hlow, Array.size_replicate,
    Array.extract_replicate, Nat.min_self]
  rfl

/-! ## Room for one access -/

/-- An access lengthens the buffer as far as its address needs. -/
theorem length_access (m : Memory) (x : Access) :
    (m.access x).length = x.reached?.elim m.length fun a => (m.reach a).length := by
  cases x with
  | read a => rfl
  | write a value => exact length_write
  | peek a => rfl
  | snapshot => rfl

/-- Room can be made before an access or by it. -/
theorem access_reach (hx : x.reached? = some a) : (m.reach a).access x = m.access x := by
  cases x with
  | read b =>
      cases hx
      exact reach_reach m a
  | write b value =>
      cases hx
      simp only [access, write_eq, reach_reach]
  | peek b => cases hx
  | snapshot => cases hx

/-- What one access does to the buffer. -/
structure MakesRoom (m : Memory) (x : Access) : Prop where
  length_le : m.length ≤ (m.access x).length
  covers : ∀ a, x.reached? = some a → a < denseLimit → a < (m.access x).length
  unchanged_of_covered : ∀ a, x.reached? = some a → a < m.length ∨ denseLimit ≤ a →
    (m.access x).length = m.length
  unchanged_of_unreached : x.reached? = none → (m.access x).length = m.length
  -- The words are copied into a longer buffer, where they fit, and the access is then one to that buffer.
  copied : ∀ a, x.reached? = some a → m.length ≤ a → a < denseLimit →
    ∃ words, copyInto? m.dense (Array.replicate (grownLength m.length a) 0) = some words ∧
      (m.access x).length = grownLength m.length a ∧
      m.access x = { m with dense := words }.access x

theorem length_le_access (m : Memory) (x : Access) : m.length ≤ (m.access x).length := by
  rw [length_access]
  cases x.reached? with
  | none => exact Nat.le_refl _
  | some a => exact length_le_reach m a

theorem length_access_le (m : Memory) (x : Access) :
    (m.access x).length ≤ max m.length denseLimit := by
  rw [length_access]
  cases x.reached? with
  | none => exact Nat.le_max_left _ _
  | some a =>
      rcases length_reach (m := m) (a := a) with hsame | ⟨-, hlimit⟩
      · exact hsame ▸ Nat.le_max_left _ _
      · exact Nat.le_trans hlimit (Nat.le_max_right _ _)

/-- Every access makes room in this way, whatever has been done with the memory before. -/
theorem makesRoom (m : Memory) (x : Access) : m.MakesRoom x where
  length_le := length_le_access m x
  covers := by
    intro a hx hlow
    simpa [length_access, hx] using lt_length_reach (m := m) hlow
  unchanged_of_covered := by
    intro a hx hcovered
    simp [length_access, hx, reach_of_covered hcovered]
  unchanged_of_unreached := by
    intro hx
    simp [length_access, hx]
  copied := by
    intro a hx hout hlow
    have hgrown : { m with dense := (m.reach a).dense } = m.reach a := by
      rw [reach_of_uncovered hout hlow]
    refine ⟨(m.reach a).dense, copyInto?_reach hout hlow, ?_, ?_⟩
    · simpa [length_access, hx] using length_reach_of_uncovered hout hlow
    · rw [hgrown, access_reach hx]

/-- Where an access changes the length of the buffer, the buffer was short of the limit, and it has become
more than twice as long or has reached the limit. -/
theorem doubles_of_length_access_ne (h : (m.access x).length ≠ m.length) :
    m.length < denseLimit ∧
      (2 * m.length + 1 ≤ (m.access x).length ∨ (m.access x).length = denseLimit) := by
  rw [length_access] at h ⊢
  cases hx : x.reached? with
  | none => simp [hx] at h
  | some a =>
      simp only [hx, Option.elim_some] at h ⊢
      by_cases hcovered : a < m.length ∨ denseLimit ≤ a
      · exact absurd (congrArg length (reach_of_covered hcovered)) h
      · have hout : m.length ≤ a := by omega
        have hlow : a < denseLimit := by omega
        rw [length_reach_of_uncovered hout hlow]
        exact ⟨by omega, doubles_or_eq_denseLimit m.length hout⟩

/-! ## Room over time -/

theorem after_append (m : Memory) (earlier later : List Access) :
    m.after (earlier ++ later) = (m.after earlier).after later :=
  List.foldl_append

theorem length_le_after (m : Memory) (history : List Access) :
    m.length ≤ (m.after history).length := by
  induction history generalizing m with
  | nil => exact Nat.le_refl _
  | cons x later ih => exact Nat.le_trans (length_le_access m x) (ih (m.access x))

theorem length_after_le (m : Memory) (history : List Access) :
    (m.after history).length ≤ max m.length denseLimit := by
  induction history generalizing m with
  | nil => exact Nat.le_max_left _ _
  | cons x later ih =>
      have hstep := length_access_le m x
      have hlater : (m.after (x :: later)).length ≤ max (m.access x).length denseLimit :=
        ih (m.access x)
      omega

/-- How many accesses of a history change the length of the buffer. -/
def lengthChanges (m : Memory) : List Access → Nat
  | [] => 0
  | x :: later =>
      (if (m.access x).length = m.length then 0 else 1) + (m.access x).lengthChanges later

/-- One more power of two stands for a length that is doubled and one word more. -/
theorem two_pow_succ_mul (k length : Nat) :
    2 ^ (k + 1) * (length + 1) = 2 ^ k * (2 * length + 1 + 1) := by
  rw [Nat.pow_succ, Nat.mul_assoc, Nat.mul_succ]

/-- A change of the length takes one power of two from what is left. -/
theorem lt_two_pow_mul_of_length_access_ne (hchange : (m.access x).length ≠ m.length)
    (h : denseLimit < 2 ^ (k + 1) * (m.length + 1)) :
    denseLimit < 2 ^ k * ((m.access x).length + 1) := by
  obtain ⟨-, hdouble | hlimit⟩ := doubles_of_length_access_ne hchange
  · calc
      denseLimit < 2 ^ (k + 1) * (m.length + 1) := h
      _ = 2 ^ k * (2 * m.length + 1 + 1) := two_pow_succ_mul k m.length
      _ ≤ 2 ^ k * ((m.access x).length + 1) := Nat.mul_le_mul_left _ (Nat.succ_le_succ hdouble)
  · calc
      denseLimit < (m.access x).length + 1 := Nat.lt_succ_of_le (Nat.le_of_eq hlimit.symm)
      _ ≤ 2 ^ k * ((m.access x).length + 1) := Nat.le_mul_of_pos_left _ (Nat.two_pow_pos k)

/-- A buffer that doubles past the limit in `k` steps changes its length at most `k` times. -/
theorem lengthChanges_le (h : denseLimit < 2 ^ k * (m.length + 1)) (history : List Access) :
    m.lengthChanges history ≤ k := by
  induction history generalizing m k with
  | nil => exact Nat.zero_le k
  | cons x later ih =>
      rw [lengthChanges]
      by_cases hsame : (m.access x).length = m.length
      · rw [if_pos hsame, Nat.zero_add]
        exact ih (by rwa [hsame])
      · rw [if_neg hsame]
        cases k with
        | zero =>
            -- The buffer is past the limit already, so there was no change.
            obtain ⟨hshort, -⟩ := doubles_of_length_access_ne hsame
            omega
        | succ k =>
            have hlater := ih (lt_two_pow_mul_of_length_access_ne hsame h)
            omega

/-- Reading the first address that is not covered makes no more room than any change has to make. -/
theorem length_access_first (hlow : m.length < denseLimit) :
    (m.access (.read m.length)).length = min (2 * m.length + 1) denseLimit := by
  have hgrown : (m.access (.read m.length)).length = grownLength m.length m.length :=
    length_reach_of_uncovered (Nat.le_refl _) hlow
  rw [hgrown, grownLength]
  omega

theorem lengthChanges_first (hlow : m.length < denseLimit) (later : List Access) :
    m.lengthChanges (.read m.length :: later) =
      1 + (m.access (.read m.length)).lengthChanges later := by
  have hgrown := length_access_first hlow
  have hchange : (m.access (.read m.length)).length ≠ m.length := by omega
  rw [lengthChanges, if_neg hchange]

/-- A buffer that stays within the limit when it doubles `k` times can change its length more than `k`
times. -/
theorem exists_lt_lengthChanges (h : 2 ^ k * (m.length + 1) ≤ denseLimit) :
    ∃ history, k < m.lengthChanges history := by
  induction k generalizing m with
  | zero =>
      have hlow : m.length < denseLimit := by omega
      exact ⟨[.read m.length], by rw [lengthChanges_first hlow]; omega⟩
  | succ k ih =>
      rw [two_pow_succ_mul] at h
      have hdouble : 2 * m.length + 1 + 1 ≤ denseLimit :=
        Nat.le_trans (Nat.le_mul_of_pos_left _ (Nat.two_pow_pos k)) h
      have hlow : m.length < denseLimit := by omega
      have hgrown : (m.access (.read m.length)).length = 2 * m.length + 1 := by
        rw [length_access_first hlow]
        omega
      obtain ⟨later, hlater⟩ := ih (m := m.access (.read m.length)) (by rwa [hgrown])
      exact ⟨.read m.length :: later, by rw [lengthChanges_first hlow]; omega⟩

/-- How often the length of a buffer can still change is settled by how often it can be doubled within the
limit. -/
theorem lengthChanges_le_iff :
    (∀ history, m.lengthChanges history ≤ k) ↔ denseLimit < 2 ^ k * (m.length + 1) := by
  constructor
  · intro hle
    refine Nat.lt_of_not_le fun hwithin => ?_
    obtain ⟨history, hmore⟩ := exists_lt_lengthChanges hwithin
    exact Nat.not_le.mpr hmore (hle history)
  · exact lengthChanges_le

/-- An empty buffer can change its length more than twenty times. -/
example : ¬ ∀ history, (load #[]).lengthChanges history ≤ 20 := by
  rw [lengthChanges_le_iff]
  decide

/-- What becomes of a buffer over the life of a memory: it never becomes shorter and stays within a bound,
each access makes room in the same way, and few of them change the length. -/
structure GrowsWithin (m : Memory) (bound changes : Nat) (history : List Access) : Prop where
  length_le : ∀ later, (m.after history).length ≤ (m.after (history ++ later)).length
  bounded : (m.after history).length ≤ bound
  makesRoom : ∀ x, (m.after history).MakesRoom x
  rare : m.lengthChanges history ≤ changes

/-- The buffer grows safely, within bounds and rarely. A memory may begin with any number of words and
anything may be done with it: its buffer never becomes shorter, and never longer than it began or than the
limit, whichever is more; every access makes the room that it needs, by copying the words to where they
fit, or changes nothing; and the length changes at most twenty-one times, as often as a buffer that starts
empty has to be doubled to go beyond the limit. -/
theorem grows_rarely (values : List Int) (history : List Access) :
    (load (Image.ofIntegers values)).GrowsWithin (max values.length denseLimit) 21 history where
  length_le := by
    intro later
    rw [after_append]
    exact length_le_after _ later
  bounded := by
    have hstart : (load (Image.ofIntegers values)).length = values.length := by
      simp [load, length, Image.ofIntegers]
    exact hstart ▸ length_after_le _ history
  makesRoom := makesRoom _
  rare := by
    refine lengthChanges_le_iff.mpr ?_ history
    calc
      denseLimit < 2 ^ 21 * 1 := by decide
      _ ≤ 2 ^ 21 * ((load (Image.ofIntegers values)).length + 1) :=
          Nat.mul_le_mul_left _ (Nat.le_add_left 1 _)

end Memory

end WordMachine
