import WordMachine.Machine
import WordMachine.Proofs.Sequence

/-!
# What decodes

An instruction word decodes if it is positive, its two low digits are an opcode, and each operand of
that opcode resolves. `Machine.Resolves` says what an operand stands for and `Machine.Refuses` why it
stands for nothing, by the digit of the instruction word and the word of the operand alone.

The rows of the opcode table are all read in one way: as many operands as the opcode takes, from left
to right (`Fetched.decodeAs_eq`). `Machine.decodes_exactly` says what comes of it.
-/

namespace WordMachine

/-! ## Operands in a row -/

namespace Opcode

/-- The instruction with the given operands, if there are as many as the opcode takes. -/
def instruction : Opcode → List Operand → Instruction
  | .add, [left, right, dest] => .calculate .add left right dest
  | .multiply, [left, right, dest] => .calculate .multiply left right dest
  | .lessThan, [left, right, dest] => .calculate .lessThan left right dest
  | .equals, [left, right, dest] => .calculate .equals left right dest
  | .jumpIfTrue, [condition, target] => .jumpIfTrue condition target
  | .jumpIfFalse, [condition, target] => .jumpIfFalse condition target
  | .input, [dest] => .input dest
  | .output, [source] => .output source
  | .adjustRelativeBase, [offset] => .adjustBase offset
  | _, _ => .halt

/-- An instruction is made up of its opcode and its operands. -/
theorem instruction_opcode_operands (i : Instruction) : i.opcode.instruction i.operands = i := by
  cases i with
  | calculate operation _ _ _ => cases operation <;> rfl
  | _ => rfl

/-- An instruction is told by its opcode and its operands. -/
theorem parts_instruction {o : Opcode} {l : List Operand} (h : l.length = o.arity) :
    (o.instruction l).opcode = o ∧ (o.instruction l).operands = l := by
  cases o with
  | add | multiply | lessThan | equals =>
      rcases List.length_eq_three.mp h with ⟨left, right, dest, rfl⟩
      exact ⟨rfl, rfl⟩
  | jumpIfTrue | jumpIfFalse =>
      rcases List.length_eq_two.mp h with ⟨condition, target, rfl⟩
      exact ⟨rfl, rfl⟩
  | input | output | adjustRelativeBase =>
      rcases List.length_eq_one_iff.mp h with ⟨operand, rfl⟩
      exact ⟨rfl, rfl⟩
  | halt =>
      rcases List.length_eq_zero_iff.mp h with rfl
      exact ⟨rfl, rfl⟩

theorem ofNumber?_eq_some_iff {n : Int} {o : Opcode} : ofNumber? n = some o ↔ n = o.number := by
  constructor
  · exact eq_number_of_ofNumber?
  · rintro rfl
    exact ofNumber?_number o

theorem ofNumber?_eq_none_iff {n : Int} : ofNumber? n = none ↔ ∀ o : Opcode, n ≠ o.number := by
  simp only [Option.eq_none_iff_forall_ne_some, ne_eq, ofNumber?_eq_some_iff]

/-- The numbers of the opcode table. -/
theorem exists_number_iff (n : Int) : (∃ o : Opcode, n = o.number) ↔ (1 ≤ n ∧ n ≤ 9) ∨ n = 99 := by
  simp only [← ofNumber?_eq_some_iff]
  constructor
  · rintro ⟨o, ho⟩
    rcases eq_number_of_ofNumber? ho with rfl
    cases o <;> decide
  · intro h
    have hcases : n = 1 ∨ n = 2 ∨ n = 3 ∨ n = 4 ∨ n = 5 ∨ n = 6 ∨ n = 7 ∨ n = 8 ∨ n = 9 ∨ n = 99 := by
      omega
    rcases hcases with rfl | rfl | rfl | rfl | rfl | rfl | rfl | rfl | rfl | rfl <;> exact ⟨_, rfl⟩

end Opcode

namespace Fetched

variable {f g : Fetched} {o : Opcode} {i : Instruction} {why : Fault}

/-- Whatever the opcode, its operands are resolved one after another. -/
theorem decodeAs_eq (f : Fetched) (o : Opcode) :
    f.decodeAs o = ((List.range o.arity).mapM f.operand).map o.instruction := by
  have hthree : ∀ c : Calculation,
      f.calculation c = ((List.range 3).mapM f.operand).map c.opcode.instruction := by
    intro c
    have hrange : List.range 3 = [0, 1, 2] := rfl
    simp only [calculation, hrange, List.mapM_cons, List.mapM_nil]
    cases f.operand 0 <;> cases f.operand 1 <;> cases f.operand 2 <;> cases c <;> rfl
  have htwo : ∀ build : Operand → Operand → Instruction,
      (∀ a b, o.instruction [a, b] = build a b) →
      (do
        let condition ← f.operand 0
        let target ← f.operand 1
        return build condition target) = ((List.range 2).mapM f.operand).map o.instruction := by
    intro build hbuild
    have hrange : List.range 2 = [0, 1] := rfl
    simp only [hrange, List.mapM_cons, List.mapM_nil]
    cases f.operand 0 with
    | error why => rfl
    | ok a =>
        cases f.operand 1 with
        | error why => rfl
        | ok b => exact congrArg Except.ok (hbuild a b).symm
  have hone : ∀ build : Operand → Instruction, (∀ a, o.instruction [a] = build a) →
      (f.operand 0).map build = ((List.range 1).mapM f.operand).map o.instruction := by
    intro build hbuild
    have hrange : List.range 1 = [0] := rfl
    simp only [hrange, List.mapM_cons, List.mapM_nil]
    cases f.operand 0 with
    | error why => rfl
    | ok a => exact congrArg Except.ok (hbuild a).symm
  cases o with
  | add => exact hthree .add
  | multiply => exact hthree .multiply
  | lessThan => exact hthree .lessThan
  | equals => exact hthree .equals
  | jumpIfTrue => exact htwo .jumpIfTrue fun _ _ => rfl
  | jumpIfFalse => exact htwo .jumpIfFalse fun _ _ => rfl
  | input => exact hone .input fun _ => rfl
  | output => exact hone .output fun _ => rfl
  | adjustRelativeBase => exact hone .adjustBase fun _ => rfl
  | halt => rfl

/-- Decoding succeeds with exactly the operands that resolve. -/
theorem decodeAs_eq_ok_iff :
    f.decodeAs o = .ok i ↔
      i.opcode = o ∧ ∀ k, (h : k < i.operands.length) → f.operand k = .ok i.operands[k] := by
  have hrow : ∀ l : List Operand, (List.range o.arity).mapM f.operand = .ok l ↔
      l.length = o.arity ∧ ∀ k, (h : k < l.length) → f.operand k = .ok l[k] := by
    intro l
    rw [mapM_eq_ok_iff, List.forall₂_iff_get]
    simp only [List.get_eq_getElem, List.getElem_range, List.length_range]
    constructor
    · rintro ⟨hlength, hresolved⟩
      exact ⟨hlength.symm, fun k h => hresolved k (hlength ▸ h) h⟩
    · rintro ⟨hlength, hresolved⟩
      exact ⟨hlength.symm, fun k _ h => hresolved k h⟩
  rw [decodeAs_eq]
  constructor
  · intro h
    cases hl : (List.range o.arity).mapM f.operand with
    | error why =>
        rw [hl] at h
        cases h
    | ok l =>
        rw [hl] at h
        cases h
        rcases (hrow l).mp hl with ⟨hlength, hresolved⟩
        rcases Opcode.parts_instruction hlength with ⟨hopcode, hoperands⟩
        simp only [hopcode, hoperands, true_and]
        exact hresolved
  · rintro ⟨rfl, hresolved⟩
    rw [(hrow i.operands).mpr ⟨i.length_operands, hresolved⟩]
    exact congrArg Except.ok (Opcode.instruction_opcode_operands i)

/-- The fault is that of the first operand that does not resolve, from the left. -/
theorem decodeAs_eq_error_iff :
    f.decodeAs o = .error why ↔
      ∃ k, k < o.arity ∧ f.operand k = .error why ∧ ∀ j, j < k → ∃ x, f.operand j = .ok x := by
  have hmap : ((List.range o.arity).mapM f.operand).map o.instruction = .error why ↔
      (List.range o.arity).mapM f.operand = .error why := by
    cases (List.range o.arity).mapM f.operand <;> simp [Except.map]
  rw [decodeAs_eq, hmap, mapM_eq_error_iff]
  simp only [List.getElem_range, List.length_range, exists_prop]

/-- Nothing of the fetched words matters but how the operands resolve. -/
theorem decodeAs_congr (h : ∀ k, k < o.arity → f.operand k = g.operand k) :
    f.decodeAs o = g.decodeAs o := by
  rw [decodeAs_eq, decodeAs_eq, mapM_congr_of_mem fun k hk => h k (List.mem_range.mp hk)]

end Fetched

/-- A value is an address if it lies between `0` and `2 ^ 32 - 1`. -/
theorem address_eq_ok_iff {value opcode pc : Int} {a : Nat} :
    address value opcode pc = .ok a ↔ value = a ∧ a ≤ 4294967295 := by
  unfold address Memory.maxAddress
  split
  · rw [Except.ok.injEq]
    omega
  · simp only [reduceCtorEq, false_iff]
    omega

theorem address_eq_error_iff {value opcode pc : Int} {why : Fault} :
    address value opcode pc = .error why ↔
      ¬ (0 ≤ value ∧ value ≤ 4294967295) ∧ why = .invalidAddress value opcode pc := by
  unfold address Memory.maxAddress
  split
  · rename_i hinside
    exact ⟨nofun, fun h => absurd hinside h.1⟩
  · rename_i houtside
    rw [Except.error.injEq, eq_comm]
    exact ⟨fun h => ⟨houtside, h⟩, fun h => h.2⟩

/-! ## Instructions in memory -/

namespace Machine

variable {m : Machine} {k : Nat} {x : Operand} {why : Fault} {i : Instruction}

def word (m : Machine) : Int :=
  (m.memory.peek m.pc).toInt

/-- The decimal digit that belongs to operand number `k`, counted from zero: of a positive instruction
word the hundreds for the first operand, and so on. -/
def digit (m : Machine) (k : Nat) : Int :=
  m.word / Nat.pow 10 (k + 2) % 10

def argument (m : Machine) (k : Nat) : Word :=
  m.memory.peek (m.pc + 1 + k)

/-- The address that a relative operand names, which may be no address and no word. -/
def relative (m : Machine) (k : Nat) : Int :=
  (m.argument k).toInt + m.base.toInt

inductive Resolves (m : Machine) (k : Nat) : Operand → Prop where
  | position {a : Nat} (digit : m.digit k = 0) (names : (m.argument k).toInt = a)
      (inside : a ≤ 4294967295) : Resolves m k (.indirect a)
  | immediate (digit : m.digit k = 1) : Resolves m k (.immediate (m.argument k))
  | relative {a : Nat} (digit : m.digit k = 2) (names : m.relative k = a)
      (inside : a ≤ 4294967295) : Resolves m k (.indirect a)

inductive Refuses (m : Machine) (k : Nat) : Fault → Prop where
  | mode (position : m.digit k ≠ 0) (immediate : m.digit k ≠ 1) (relative : m.digit k ≠ 2) :
      Refuses m k (.unknownMode (m.digit k) (m.word % 100) m.pc)
  | position (digit : m.digit k = 0)
      (outside : ¬ (0 ≤ (m.argument k).toInt ∧ (m.argument k).toInt ≤ 4294967295)) :
      Refuses m k (.invalidAddress (m.argument k).toInt (m.word % 100) m.pc)
  | relative (digit : m.digit k = 2) (outside : ¬ (0 ≤ m.relative k ∧ m.relative k ≤ 4294967295)) :
      Refuses m k (.invalidAddress (m.relative k) (m.word % 100) m.pc)

def AsksFor (m : Machine) (o : Opcode) : Prop :=
  0 < m.word ∧ m.word % 100 = o.number

/-- For a positive word, truncating division agrees with reading digits from the numeral. -/
theorem modeDigit_eq (hpositive : 0 < m.word) (k : Nat) : modeDigit m.word k = m.digit k := by
  have hquotient : m.word.tdiv (Nat.pow 10 (k + 2)) = m.word / Nat.pow 10 (k + 2) :=
    Int.tdiv_eq_ediv_of_nonneg (Int.le_of_lt hpositive)
  have hnonneg : 0 ≤ m.word / Nat.pow 10 (k + 2) :=
    Int.ediv_nonneg (Int.le_of_lt hpositive) (Int.natCast_nonneg _)
  rw [modeDigit, hquotient, Int.tmod_eq_emod_of_nonneg hnonneg, digit]

/-- No opcode is zero or less, so no word but a positive one asks for one. -/
theorem asksFor_iff {o : Opcode} : m.AsksFor o ↔ opcodeDigits m.word = o.number := by
  have hnumber : 0 < (o.number : Int) := by cases o <;> decide
  unfold AsksFor opcodeDigits
  constructor
  · rintro ⟨hpositive, hdigits⟩
    rw [Int.tmod_eq_emod_of_nonneg (Int.le_of_lt hpositive), hdigits]
  · intro hdigits
    have hpositive : 0 < m.word := by
      refine Int.not_le.mp fun hnegative => ?_
      have hmirrored := Int.tmod_nonneg 100 (Int.neg_nonneg_of_nonpos hnegative)
      rw [Int.neg_tmod, hdigits] at hmirrored
      omega
    rw [Int.tmod_eq_emod_of_nonneg (Int.le_of_lt hpositive)] at hdigits
    exact ⟨hpositive, hdigits⟩

theorem operand_fetch (hpositive : 0 < m.word) (k : Nat) :
    m.fetch.operand k =
      match Mode.ofDigit? (m.digit k) with
      | none => .error (.unknownMode (m.digit k) (m.word % 100) m.pc)
      | some .immediate => .ok (.immediate (m.argument k))
      | some .position => (address (m.argument k).toInt (m.word % 100) m.pc).map .indirect
      | some .relative => (address (m.relative k) (m.word % 100) m.pc).map .indirect := by
  have hdigit : modeDigit m.fetch.word.toInt k = m.digit k := modeDigit_eq hpositive k
  have hopcode : m.fetch.opcode = m.word % 100 := Int.tmod_eq_emod_of_nonneg (Int.le_of_lt hpositive)
  simp only [Fetched.operand, hdigit, hopcode]
  rfl

theorem Resolves.operand_eq (h : m.Resolves k x) (hpositive : 0 < m.word) :
    m.fetch.operand k = .ok x := by
  rw [operand_fetch hpositive]
  cases h with
  | position digit names inside =>
      simp only [digit, Mode.ofDigit?, address_eq_ok_iff.mpr ⟨names, inside⟩]
      rfl
  | immediate digit => simp only [digit, Mode.ofDigit?]
  | relative digit names inside =>
      simp only [digit, Mode.ofDigit?, address_eq_ok_iff.mpr ⟨names, inside⟩]
      rfl

theorem Refuses.operand_eq (h : m.Refuses k why) (hpositive : 0 < m.word) :
    m.fetch.operand k = .error why := by
  rw [operand_fetch hpositive]
  cases h with
  | mode position immediate relative =>
      have hnone : Mode.ofDigit? (m.digit k) = none := by
        unfold Mode.ofDigit?
        split
        · exact absurd ‹_› position
        · exact absurd ‹_› immediate
        · exact absurd ‹_› relative
        · rfl
      simp only [hnone]
  | position digit outside =>
      simp only [digit, Mode.ofDigit?, address_eq_error_iff.mpr ⟨outside, rfl⟩]
      rfl
  | relative digit outside =>
      simp only [digit, Mode.ofDigit?, address_eq_error_iff.mpr ⟨outside, rfl⟩]
      rfl

/-- The digits and ranges for which an operand stands for something. -/
theorem exists_resolves_iff :
    (∃ x, m.Resolves k x) ↔ m.digit k = 1 ∨
      m.digit k = 0 ∧ 0 ≤ (m.argument k).toInt ∧ (m.argument k).toInt ≤ 4294967295 ∨
      m.digit k = 2 ∧ 0 ≤ m.relative k ∧ m.relative k ≤ 4294967295 := by
  constructor
  · rintro ⟨x, h⟩
    cases h with
    | position digit names inside => exact .inr (.inl ⟨digit, by omega, by omega⟩)
    | immediate digit => exact .inl digit
    | relative digit names inside => exact .inr (.inr ⟨digit, by omega, by omega⟩)
  · rintro (hdigit | ⟨hdigit, hlow, hhigh⟩ | ⟨hdigit, hlow, hhigh⟩)
    · exact ⟨_, .immediate hdigit⟩
    · exact ⟨_, .position hdigit (Int.toNat_of_nonneg hlow).symm (by omega)⟩
    · exact ⟨_, .relative hdigit (Int.toNat_of_nonneg hlow).symm (by omega)⟩

/-- Every operand is settled one way or the other, so both directions of the characterisations
follow from one. -/
theorem resolves_or_refuses (m : Machine) (k : Nat) :
    (∃ x, m.Resolves k x) ∨ ∃ why, m.Refuses k why := by
  rw [exists_resolves_iff]
  by_cases hposition : m.digit k = 0
  · by_cases hinside : 0 ≤ (m.argument k).toInt ∧ (m.argument k).toInt ≤ 4294967295
    · exact .inl (.inr (.inl ⟨hposition, hinside⟩))
    · exact .inr ⟨_, .position hposition hinside⟩
  · by_cases himmediate : m.digit k = 1
    · exact .inl (.inl himmediate)
    · by_cases hrelative : m.digit k = 2
      · by_cases hinside : 0 ≤ m.relative k ∧ m.relative k ≤ 4294967295
        · exact .inl (.inr (.inr ⟨hrelative, hinside⟩))
        · exact .inr ⟨_, .relative hrelative hinside⟩
      · exact .inr ⟨_, .mode hposition himmediate hrelative⟩

theorem operand_eq_ok_iff (hpositive : 0 < m.word) :
    m.fetch.operand k = .ok x ↔ m.Resolves k x := by
  constructor
  · intro h
    rcases m.resolves_or_refuses k with ⟨x', hx'⟩ | ⟨why, hwhy⟩
    · cases (hx'.operand_eq hpositive).symm.trans h
      exact hx'
    · cases (hwhy.operand_eq hpositive).symm.trans h
  · intro h
    exact h.operand_eq hpositive

theorem operand_eq_error_iff (hpositive : 0 < m.word) :
    m.fetch.operand k = .error why ↔ m.Refuses k why := by
  constructor
  · intro h
    rcases m.resolves_or_refuses k with ⟨x, hx⟩ | ⟨why', hwhy'⟩
    · cases (hx.operand_eq hpositive).symm.trans h
    · cases (hwhy'.operand_eq hpositive).symm.trans h
      exact hwhy'
  · intro h
    exact h.operand_eq hpositive

theorem decode_of_asksFor {o : Opcode} (h : m.AsksFor o) : m.decode = m.fetch.decodeAs o := by
  have hopcode : Opcode.ofNumber? m.fetch.opcode = some o :=
    Opcode.ofNumber?_eq_some_iff.mpr (asksFor_iff.mp h)
  simp only [decode, Fetched.decode, hopcode]

/-- The two low digits are reported with the sign of the word. -/
theorem decode_of_unknown (h : ∀ o, ¬ m.AsksFor o) :
    m.decode = .error (.unknownOpcode (m.word.tmod 100) m.pc) := by
  have hopcode : Opcode.ofNumber? m.fetch.opcode = none :=
    Opcode.ofNumber?_eq_none_iff.mpr fun o ho => h o (asksFor_iff.mpr ho)
  simp only [decode, Fetched.decode, hopcode]
  rfl

/-- A word asks for one opcode at most. -/
theorem AsksFor.unique {o o' : Opcode} (h : m.AsksFor o) (h' : m.AsksFor o') : o = o' := by
  have hsome := Opcode.ofNumber?_eq_some_iff.mpr h.2
  have hsome' := Opcode.ofNumber?_eq_some_iff.mpr h'.2
  exact Option.some.inj (hsome.symm.trans hsome')

/-- An instruction is decoded from a word that asks for its opcode, with its own operands. -/
theorem decode_eq_ok_iff :
    m.decode = .ok i ↔
      m.AsksFor i.opcode ∧ ∀ k, (h : k < i.operands.length) → m.Resolves k i.operands[k] := by
  constructor
  · intro h
    by_cases hknown : ∃ o, m.AsksFor o
    · rcases hknown with ⟨o, ho⟩
      rw [decode_of_asksFor ho, Fetched.decodeAs_eq_ok_iff] at h
      rcases h with ⟨rfl, hresolved⟩
      exact ⟨ho, fun k hk => (operand_eq_ok_iff ho.1).mp (hresolved k hk)⟩
    · rw [decode_of_unknown (not_exists.mp hknown)] at h
      cases h
  · rintro ⟨ho, hresolved⟩
    rw [decode_of_asksFor ho, Fetched.decodeAs_eq_ok_iff]
    exact ⟨rfl, fun k hk => (hresolved k hk).operand_eq ho.1⟩

/-- An unknown opcode is reported before any operand is looked at. -/
theorem decode_eq_error_iff :
    m.decode = .error why ↔
      (∀ o, ¬ m.AsksFor o) ∧ why = .unknownOpcode (m.word.tmod 100) m.pc ∨
      ∃ o k, m.AsksFor o ∧ k < o.arity ∧ m.Refuses k why ∧ ∀ j, j < k → ∃ x, m.Resolves j x := by
  by_cases hknown : ∃ o, m.AsksFor o
  · rcases hknown with ⟨o, ho⟩
    rw [decode_of_asksFor ho, Fetched.decodeAs_eq_error_iff]
    simp only [operand_eq_ok_iff ho.1, operand_eq_error_iff ho.1]
    constructor
    · rintro ⟨k, hk, hrefused, hearlier⟩
      exact .inr ⟨o, k, ho, hk, hrefused, hearlier⟩
    · rintro (⟨hunknown, -⟩ | ⟨o', k, ho', hk, hrefused, hearlier⟩)
      · exact absurd ho (hunknown o)
      · rcases ho.unique ho' with rfl
        exact ⟨k, hk, hrefused, hearlier⟩
  · rw [decode_of_unknown (not_exists.mp hknown)]
    constructor
    · intro h
      cases h
      exact .inl ⟨not_exists.mp hknown, rfl⟩
    · rintro (⟨-, rfl⟩ | ⟨o, k, ho, -⟩)
      · rfl
      · exact absurd ⟨o, ho⟩ hknown

theorem exists_decode_iff :
    (∃ i, m.decode = .ok i) ↔ ∃ o, m.AsksFor o ∧ ∀ k, k < o.arity → ∃ x, m.Resolves k x := by
  constructor
  · rintro ⟨i, h⟩
    rcases decode_eq_ok_iff.mp h with ⟨ho, hresolved⟩
    exact ⟨_, ho, fun k hk => ⟨_, hresolved k (i.length_operands ▸ hk)⟩⟩
  · rintro ⟨o, ho, hresolved⟩
    cases hdecode : m.decode with
    | ok i => exact ⟨i, rfl⟩
    | error why =>
        rw [decode_of_asksFor ho, Fetched.decodeAs_eq_error_iff] at hdecode
        rcases hdecode with ⟨k, hk, hrefused, -⟩
        rcases hresolved k hk with ⟨x, hx⟩
        cases (hx.operand_eq ho.1).symm.trans hrefused

/-- Two machines decode alike that differ in nothing their instruction has. -/
theorem decode_congr {m m' : Machine} (hpc : m'.pc = m.pc) (hbase : m'.base = m.base)
    (hdigits : m'.word.tmod 100 = m.word.tmod 100)
    (hoperands : ∀ o : Opcode, m.word.tmod 100 = o.number → ∀ k, k < o.arity →
      m'.digit k = m.digit k ∧ m'.argument k = m.argument k) :
    m'.decode = m.decode := by
  have hasks : ∀ o, m'.AsksFor o ↔ m.AsksFor o := by
    intro o
    rw [asksFor_iff, asksFor_iff, opcodeDigits, opcodeDigits, hdigits]
  by_cases hknown : ∃ o, m.AsksFor o
  · rcases hknown with ⟨o, ho⟩
    have ho' := (hasks o).mpr ho
    rw [decode_of_asksFor ho, decode_of_asksFor ho']
    refine Fetched.decodeAs_congr fun k hk => ?_
    rcases hoperands o (asksFor_iff.mp ho) k hk with ⟨hdigit, hargument⟩
    have hopcode : m'.word % 100 = m.word % 100 := ho'.2.trans ho.2.symm
    simp only [operand_fetch ho.1, operand_fetch ho'.1, relative, hdigit, hargument, hopcode, hbase, hpc]
  · have hunknown := not_exists.mp hknown
    rw [decode_of_unknown hunknown, decode_of_unknown fun o ho => hunknown o ((hasks o).mp ho), hdigits,
      hpc]

/-- What a machine decodes at its program counter. -/
structure Decodes (m : Machine) : Prop where
  accepts_iff : (∃ i, m.decode = .ok i) ↔
    0 < m.word ∧ ((1 ≤ m.word % 100 ∧ m.word % 100 ≤ 9) ∨ m.word % 100 = 99) ∧
      ∀ o : Opcode, m.word % 100 = o.number → ∀ k, k < o.arity →
        m.digit k = 1 ∨
        m.digit k = 0 ∧ 0 ≤ (m.argument k).toInt ∧ (m.argument k).toInt ≤ 4294967295 ∨
        m.digit k = 2 ∧ 0 ≤ m.relative k ∧ m.relative k ≤ 4294967295
  -- The instruction has the opcode of the word and the operands that resolve, as many as it takes.
  ok_iff : ∀ i, m.decode = .ok i ↔
    m.AsksFor i.opcode ∧ ∀ k, (h : k < i.operands.length) → m.Resolves k i.operands[k]
  -- The opcode is complained about before any operand, and an operand before those behind it.
  error_iff : ∀ why, m.decode = .error why ↔
    (∀ o, ¬ m.AsksFor o) ∧ why = .unknownOpcode (m.word.tmod 100) m.pc ∨
    ∃ o k, m.AsksFor o ∧ k < o.arity ∧ m.Refuses k why ∧ ∀ j, j < k → ∃ x, m.Resolves j x
  -- No other digit counts, and no other cell, however the memory keeps them.
  framed : ∀ m' : Machine, m'.pc = m.pc → m'.base = m.base →
    m'.word.tmod 100 = m.word.tmod 100 →
    (∀ o : Opcode, m.word.tmod 100 = o.number → ∀ k, k < o.arity →
      m'.digit k = m.digit k ∧ m'.argument k = m.argument k) →
    m'.decode = m.decode

/-- Decoding is exact. It succeeds if and only if the instruction word is positive, its two low digits
are an opcode, and for each operand of that opcode the digit is `1`, or it is `0` and the word of the
operand is an address, or it is `2` and the sum of that word and the relative base is one. The
instruction then holds just these operands. Otherwise the opcode is complained about if it is unknown,
and else the first operand that stands for nothing. -/
theorem decodes_exactly (m : Machine) : m.Decodes where
  accepts_iff := by
    rw [exists_decode_iff, ← Opcode.exists_number_iff]
    simp only [exists_resolves_iff]
    constructor
    · rintro ⟨o, ho, hresolved⟩
      refine ⟨ho.1, ⟨o, ho.2⟩, ?_⟩
      intro o' ho'
      rcases ho.unique ⟨ho.1, ho'⟩ with rfl
      exact hresolved
    · rintro ⟨hpositive, ⟨o, ho⟩, hresolved⟩
      exact ⟨o, ⟨hpositive, ho⟩, hresolved o ho⟩
  ok_iff := fun _ => decode_eq_ok_iff
  error_iff := fun _ => decode_eq_error_iff
  framed := fun _ hpc hbase hdigits hoperands => decode_congr hpc hbase hdigits hoperands

/-- A relative address is summed without wrapping. -/
example : decode
    { memory := Memory.load (Image.ofIntegers [203, 9223372036854775807])
      base := Word.ofInt 9223372036854775807 } =
    .error (.invalidAddress 18446744073709551614 3 0) := by decide

end Machine

end WordMachine
