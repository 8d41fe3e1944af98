import WordMachine.Proofs.Memory

/-!
# Memory over time

Whatever has been done with a memory, it is one total map from addresses to words: a cell holds what
was last written to it, or else its word of the image, or else zero, each reduced to a word. How the
cells are kept cannot be seen. `Memory.peek_after` follows a cell through a history of accesses, and
`Memory.maps_after` puts together what all ways of looking at the memory then show.
-/

namespace WordMachine

inductive Access where
  | read (address : Nat)
  | peek (address : Nat)
  -- The integer is reduced to a word.
  | write (address : Nat) (value : Int)
  | snapshot
  deriving DecidableEq, Repr

namespace Access

/-- The integer that an access writes to a cell. -/
def written? (a : Nat) : Access → Option Int
  | write b value => if b = a then some value else none
  | _ => none

/-- The integer that was last written to a cell. -/
def lastWritten? (a : Nat) : List Access → Option Int
  | [] => none
  | x :: later => (lastWritten? a later).or (x.written? a)

/-- The integer that a cell stands for in a memory that began with the given ones. -/
def recorded (values : List Int) (history : List Access) (a : Nat) : Int :=
  (lastWritten? a history).getD (values.getD a 0)

end Access

namespace Memory

variable {m : Memory}

def access (m : Memory) : Access → Memory
  | .read a => (m.read a).2
  | .peek _ => m
  | .write a value => m.write a (Word.ofInt value)
  | .snapshot => m

def after (m : Memory) (history : List Access) : Memory :=
  history.foldl access m

theorem Sound.access (h : m.Sound) (x : Access) : (m.access x).Sound := by
  cases x with
  | read a => exact h.reach a
  | peek a => exact h
  | write a value => exact h.write a (Word.ofInt value)
  | snapshot => exact h

theorem Sound.after (h : m.Sound) (history : List Access) : (m.after history).Sound := by
  induction history generalizing m with
  | nil => exact h
  | cons x later ih => exact ih (h.access x)

/-- An access changes the cell that it writes to, if it writes at all. -/
theorem peek_access (h : m.Sound) (x : Access) (a : Nat) :
    (m.access x).peek a = (x.written? a).elim (m.peek a) Word.ofInt := by
  cases x with
  | read b => exact peek_reach h b a
  | peek b => rfl
  | snapshot => rfl
  | write b value =>
      have hwrite := peek_write h b (Word.ofInt value) a
      by_cases hab : b = a
      · simpa [access, Access.written?, hab] using hwrite
      · simpa [access, Access.written?, hab, Ne.symm hab] using hwrite

/-- After any history a cell holds what was last written to it. -/
theorem peek_after (h : m.Sound) (history : List Access) (a : Nat) :
    (m.after history).peek a = (Access.lastWritten? a history).elim (m.peek a) Word.ofInt := by
  induction history generalizing m with
  | nil => rfl
  | cons x later ih =>
      have hlater : (m.after (x :: later)).peek a =
          (Access.lastWritten? a later).elim ((m.access x).peek a) Word.ofInt := ih (h.access x)
      rw [hlater, peek_access h x a, Access.lastWritten?]
      cases Access.lastWritten? a later <;> rfl

/-- A memory shows one content, however it is looked at: `content a` is the integer that cell `a` stands
for. -/
structure Maps (m : Memory) (content : Nat → Int) : Prop where
  peek_eq : ∀ a, (m.peek a).toInt = (content a).bmod Int64.size
  read_eq : ∀ a, (m.read a).1 = m.peek a
  -- Making room for one cell changes none.
  growth : ∀ a b, (m.read a).2.peek b = m.peek b
  snapshot_size : m.snapshot.size = m.length
  snapshot_eq : ∀ i (h : i < m.snapshot.size), m.snapshot[i] = m.peek i
  -- What is kept on its own is never covered by the buffer.
  sparse_eq : ∀ a w, m.sparse[a]? = some w → m.length ≤ a ∧ m.peek a = w

/-- A sound memory shows one content. -/
theorem Sound.maps (h : m.Sound) {content : Nat → Int}
    (hcontent : ∀ a, (m.peek a).toInt = (content a).bmod Int64.size) : m.Maps content where
  peek_eq := hcontent
  read_eq := fst_read h
  growth := peek_reach h
  snapshot_size := rfl
  snapshot_eq := by
    intro i hi
    have hdense : i < m.dense.size := hi
    simp [peek, snapshot, hdense]
  sparse_eq := by
    intro a w hw
    have hmem : a ∈ m.sparse := Std.TreeMap.mem_iff_isSome_getElem?.mpr (by rw [hw]; rfl)
    have hlength : m.length ≤ a := Nat.le_trans (Nat.le_max_left _ _) (h a hmem)
    have hout : ¬ a < m.dense.size := Nat.not_lt.mpr hlength
    refine ⟨hlength, ?_⟩
    simp [peek, hout, Std.TreeMap.getD_eq_getD_getElem?, hw]

/-- Memory is a total map. It may begin with any integers, more than the buffer can grow to and larger
than words, and anything may be done with it: at any time each cell shows the integer last written to
it, or else the one it began with, or else zero, always reduced to a word; the snapshot shows the
cells of the buffer, and a cell that is kept on its own stays behind the buffer and in sight. -/
theorem maps_after (values : List Int) (history : List Access) :
    ((load (Image.ofIntegers values)).after history).Maps (Access.recorded values history) := by
  have hsound := sound_load (Image.ofIntegers values)
  refine (hsound.after history).maps ?_
  intro a
  rw [peek_after hsound, peek_load_ofIntegers, ← Int64.toInt_ofInt, Access.recorded]
  cases Access.lastWritten? a history <;> rfl

/-- The buffer grows, and what is kept on its own is still there. -/
example :
    (((load (Image.ofIntegers [5])).after
        [.write 3000000 18446744073709551617, .read 2, .write 0 (-1)]).peek 3000000).toInt = 1 := by
  decide

end Memory

end WordMachine
