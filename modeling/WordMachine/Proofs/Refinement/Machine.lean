import WordMachine.Proofs.Decoding
import WordMachine.Proofs.Flat
import WordMachine.Proofs.Memory

/-!
# Instructions on the flat machine

`Machine.flat` forgets how memory is kept: it shows registers and, for every address, the word that
`Memory.peek` finds there. Along this view one instruction is one row of the opcode table:

* `Machine.offer_flat`: the row of the opcode table is the decoded instruction, carried out;
* `Machine.execute_shows`: carrying it out on a sound memory looks like carrying it out on the view.
-/

namespace WordMachine

/-- What a machine looks like when only registers and cells can be seen. -/
def Machine.flat (m : Machine) : Flat :=
  { memory := m.memory.peek, pc := m.pc, base := m.base }

/-! ## Decoding -/

namespace Calculation

/-- The operation on unbounded integers. -/
def onIntegers : Calculation → Int → Int → Int
  | add, a, b => a + b
  | multiply, a, b => a * b
  | lessThan, a, b => if a < b then 1 else 0
  | equals, a, b => if a = b then 1 else 0

/-- Computing with words is computing with integers and wrapping the result. -/
theorem ofInt_onIntegers (c : Calculation) (a b : Word) :
    Word.ofInt (c.onIntegers a.toInt b.toInt) = c.apply a b := by
  cases c with
  | add => simp [onIntegers, apply, Int64.ofInt_add]
  | multiply => simp [onIntegers, apply, Int64.ofInt_mul]
  | lessThan =>
      by_cases h : a < b
      · simp [onIntegers, apply, h, Int64.lt_iff_toInt_lt.mp h, Word.ofInt]
      · have hint : ¬ a.toInt < b.toInt := fun hlt => h (Int64.lt_iff_toInt_lt.mpr hlt)
        simp [onIntegers, apply, h, hint, Word.ofInt]
  | equals =>
      by_cases h : a = b
      · simp [onIntegers, apply, h, Word.ofInt]
      · have hint : ¬ a.toInt = b.toInt := fun heq => h (Int64.toInt_inj.mp heq)
        simp [onIntegers, apply, h, hint, Word.ofInt]

end Calculation

namespace Flat

/-- What a decoded instruction amounts to. -/
def carryOut (m : Flat) : Instruction → Except Fault Offer
  | .calculate c left right dest =>
    (m.store 4 dest (c.onIntegers (m.value left) (m.value right))).map .go
  | .jumpIfTrue condition target => m.jump (fun a => a ≠ 0) condition target
  | .jumpIfFalse condition target => m.jump (fun a => a = 0) condition target
  | .input dest => .ok (.ask dest)
  | .output source => .ok (.tell (Word.ofInt (m.value source)) { m with pc := m.pc + 2 })
  | .adjustBase offset =>
    .ok (.go { m with base := Word.ofInt (m.base.toInt + m.value offset), pc := m.pc + 2 })
  | .halt => .ok .halt

/-- No row of the opcode table stands for a number without an opcode. -/
theorem offer_of_unknown {m : Flat} (h : Opcode.ofNumber? m.opcode = none) :
    m.offer = .error (.unknownOpcode m.opcode m.pc) := by
  unfold Opcode.ofNumber? at h
  split at h
  case h_11 => simp only [Flat.offer]
  all_goals cases h

end Flat

namespace Machine

variable {m : Machine}

theorem address_flat (m : Machine) (value : Int) :
    m.flat.address value = WordMachine.address value m.flat.opcode m.pc := rfl

/-- Operands are resolved alike. -/
theorem operand_flat (m : Machine) (k : Nat) : m.flat.operand k = m.fetch.operand k := by
  have hcell : m.pc + k + 1 = m.pc + 1 + k := by omega
  have hargument : m.flat.memory (m.flat.pc + k + 1) = m.fetch.argument k :=
    congrArg m.memory.peek hcell
  have hdigit : modeDigit m.fetch.word.toInt k = m.flat.mode k := rfl
  simp only [Flat.operand, Fetched.operand, hargument, hdigit]
  by_cases hposition : m.flat.mode k = 0
  · simp only [hposition]
    rfl
  · by_cases himmediate : m.flat.mode k = 1
    · simp only [himmediate]
      rfl
    · by_cases hrelative : m.flat.mode k = 2
      · simp only [hrelative]
        rfl
      · simp only [Mode.ofDigit?]
        rfl

/-- The flat machine combines integers without limits; the machine does so with words. -/
theorem binary_flat (m : Machine) (c : Calculation) :
    m.flat.binary c.onIntegers = (m.fetch.calculation c) >>= m.flat.carryOut := by
  simp only [Flat.binary, Fetched.calculation, operand_flat]
  cases m.fetch.operand 0 with
  | error why => rfl
  | ok left =>
      cases m.fetch.operand 1 with
      | error why => rfl
      | ok right =>
          cases m.fetch.operand 2 with
          | error why => rfl
          | ok dest => rfl

theorem branch_flat (m : Machine) (test : Int → Bool) (i : Operand → Operand → Instruction)
    (h : ∀ condition target,
      m.flat.carryOut (i condition target) = m.flat.jump test condition target) :
    m.flat.branch test = (do
      let condition ← m.fetch.operand 0
      let target ← m.fetch.operand 1
      return i condition target) >>= m.flat.carryOut := by
  simp only [Flat.branch, operand_flat]
  cases m.fetch.operand 0 with
  | error why => rfl
  | ok condition =>
      cases m.fetch.operand 1 with
      | error why => rfl
      | ok target => exact (h condition target).symm

/-- The row of the opcode table is the decoded instruction, carried out. -/
theorem offer_flat (m : Machine) : m.flat.offer = m.decode >>= m.flat.carryOut := by
  have hopcode : m.fetch.opcode = m.flat.opcode := rfl
  simp only [decode, Fetched.decode, hopcode]
  cases hknown : Opcode.ofNumber? m.flat.opcode with
  | none => exact Flat.offer_of_unknown hknown
  | some o =>
      have hnumber := Opcode.eq_number_of_ofNumber? hknown
      simp only [Flat.offer, hnumber]
      cases o with
      | add => exact binary_flat m .add
      | multiply => exact binary_flat m .multiply
      | input =>
          simp only [Opcode.number, Fetched.decodeAs, operand_flat]
          cases m.fetch.operand 0 <;> rfl
      | output =>
          simp only [Opcode.number, Fetched.decodeAs, operand_flat]
          cases m.fetch.operand 0 <;> rfl
      | jumpIfTrue => exact branch_flat m _ .jumpIfTrue fun _ _ => rfl
      | jumpIfFalse => exact branch_flat m _ .jumpIfFalse fun _ _ => rfl
      | lessThan => exact binary_flat m .lessThan
      | equals => exact binary_flat m .equals
      | adjustRelativeBase =>
          simp only [Opcode.number, Fetched.decodeAs, operand_flat]
          cases m.fetch.operand 0 <;> rfl
      | halt => rfl

/-- A decoded instruction has the opcode that its word asks for. -/
theorem opcode_of_decode {i : Instruction} (h : m.decode = .ok i) :
    m.flat.opcode = i.opcode.number :=
  asksFor_iff.mp (decode_eq_ok_iff.mp h).1

end Machine

/-! ## Execution -/

/-- What an effect amounts to for whoever sees the machine it leaves only from outside. -/
def Effect.offer (m : Machine) : Effect → Except Fault Flat.Offer
  | .proceed => .ok (.go m.flat)
  | .halt => .ok .halt
  | .request dest => .ok (.ask dest)
  | .emit value => .ok (.tell value (m.skip .output).flat)
  | .fail why => .error why

/-- An executed instruction looks like the given offer. Unless it is complete, nothing can be seen
of it yet. -/
structure Machine.Shows (m : Machine) (offer : Except Fault Flat.Offer) (r : Machine × Effect) :
    Prop where
  offer_eq : r.2.offer r.1 = offer
  sound : r.1.memory.Sound
  flat_eq : r.2 ≠ .proceed → r.1.flat = m.flat

namespace Memory

variable {m : Memory}

theorem Sound.value (h : m.Sound) (o : Operand) : (m.value o).2.Sound := by
  cases o with
  | immediate w => exact h
  | indirect a => exact h.reach a

theorem peek_snd_value (h : m.Sound) (o : Operand) : (m.value o).2.peek = m.peek := by
  cases o with
  | immediate w => rfl
  | indirect a => exact funext (peek_reach h a)

end Memory

namespace Machine

variable {m : Machine}

/-- An operand stands for the same integer however its cell is kept. -/
theorem fst_value_flat (h : m.memory.Sound) (o : Operand) :
    (m.memory.value o).1.toInt = m.flat.value o := by
  cases o with
  | immediate w => rfl
  | indirect a => exact congrArg Int64.toInt (Memory.fst_read h a)

/-- Reading an operand cannot be seen. -/
theorem flat_snd_value (h : m.memory.Sound) (o : Operand) :
    ({ m with memory := (m.memory.value o).2 } : Machine).flat = m.flat := by
  simp only [flat, Memory.peek_snd_value h o]

/-- Storing a word shows as storing any integer that the word represents. -/
theorem store_shows (h : m.memory.Sound) {o : Opcode} (hopcode : m.flat.opcode = o.number)
    (dest : Operand) {w : Word} {n : Int} (hw : Word.ofInt n = w) :
    m.Shows ((m.flat.store o.width dest n).map .go) (m.store o m.pc dest w) := by
  cases dest with
  | immediate literal =>
      refine ⟨?_, h, fun _ => rfl⟩
      simp only [store, Effect.offer, Flat.store, hopcode]
      rfl
  | indirect a =>
      refine ⟨?_, h.write a w, fun hne => absurd rfl hne⟩
      have hview : (m.memory.write a w).peek = Function.update m.memory.peek a w := by
        funext b
        rw [Memory.peek_write h a w b, Function.update_apply]
      simp only [store, Effect.offer, Flat.store, hw, flat, hview]
      rfl

/-- Reading both operands before the destination makes no difference to what can be seen. -/
theorem calculate_shows (h : m.memory.Sound) {c : Calculation} {left right dest : Operand}
    (hopcode : m.flat.opcode = c.opcode.number) :
    m.Shows (m.flat.carryOut (.calculate c left right dest)) (m.calculate c left right dest) := by
  have hleft := h.value left
  have hright := hleft.value right
  let m₁ : Machine := { m with memory := (m.memory.value left).2 }
  let m₂ : Machine := { m with memory := (m₁.memory.value right).2 }
  have hflat₁ : m₁.flat = m.flat := flat_snd_value h left
  have hflat₂ : m₂.flat = m.flat := (flat_snd_value (m := m₁) hleft right).trans hflat₁
  have ha := fst_value_flat h left
  have hb := fst_value_flat (m := m₁) hleft right
  have hword := c.ofInt_onIntegers (m.memory.value left).1 (m₁.memory.value right).1
  rw [ha, hb, hflat₁] at hword
  have hshows := store_shows (m := m₂) hright (hflat₂ ▸ hopcode) dest hword
  have hwidth : c.opcode.width = 4 := by cases c <;> rfl
  rw [hflat₂, hwidth] at hshows
  exact ⟨hshows.offer_eq, hshows.sound, fun hne => (hshows.flat_eq hne).trans hflat₂⟩

/-- A jump reads its target only if it is taken. This cannot be seen either. -/
theorem jump_shows (h : m.memory.Sound) {o : Opcode} (hopcode : m.flat.opcode = o.number)
    (hwidth : o.width = 3) (test : Word → Bool) (onInteger : Int → Bool)
    (htest : ∀ w, onInteger w.toInt = test w) (condition target : Operand) :
    m.Shows (m.flat.jump onInteger condition target) (m.jump o test condition target) := by
  have hcondition := h.value condition
  have hpeek₁ := Memory.peek_snd_value h condition
  simp only [Flat.jump, jump, ← fst_value_flat h condition, htest]
  by_cases hpass : test (m.memory.value condition).1
  · have htarget := hcondition.value target
    have hpeek₂ := (Memory.peek_snd_value hcondition target).trans hpeek₁
    have hvalue := fst_value_flat (m := { m with memory := (m.memory.value condition).2 })
      hcondition target
    rw [flat_snd_value h condition] at hvalue
    simp only [hpass, if_true, ← hvalue, address_flat, hopcode]
    cases address ((m.memory.value condition).2.value target).1.toInt o.number m.pc with
    | ok next =>
        refine ⟨?_, htarget, fun hne => absurd rfl hne⟩
        simp only [Effect.offer, flat, hpeek₂]
        rfl
    | error why =>
        refine ⟨rfl, htarget, fun _ => ?_⟩
        simp only [flat, hpeek₂]
  · simp only [hpass, Bool.false_eq_true, if_false]
    refine ⟨?_, hcondition, fun hne => absurd rfl hne⟩
    simp only [Effect.offer, skip, hwidth, flat, hpeek₁]

theorem decide_toInt_eq_zero (w : Word) : decide (w.toInt = 0) = decide (w = 0) :=
  decide_eq_decide.mpr (Int64.toInt_inj (y := 0))

/-- Carrying an instruction out looks like carrying it out on the view. -/
theorem execute_shows (h : m.memory.Sound) {i : Instruction}
    (hopcode : m.flat.opcode = i.opcode.number) : m.Shows (m.flat.carryOut i) (m.execute i) := by
  cases i with
  | calculate c left right dest => exact calculate_shows h hopcode
  | jumpIfTrue condition target =>
      have htest : ∀ w : Word, decide (w.toInt ≠ 0) = decide (w ≠ 0) := by
        intro w
        simp only [ne_eq, decide_not, decide_toInt_eq_zero]
      exact jump_shows h hopcode rfl (fun w => w ≠ 0) (fun a => a ≠ 0) htest condition target
  | jumpIfFalse condition target =>
      exact jump_shows h hopcode rfl (fun w => w = 0) (fun a => a = 0) decide_toInt_eq_zero condition
        target
  | input dest => exact ⟨rfl, h, fun _ => rfl⟩
  | output source =>
      refine ⟨?_, h.value source, fun _ => flat_snd_value h source⟩
      have hpeek := Memory.peek_snd_value h source
      simp only [Flat.carryOut, ← fst_value_flat h source, Int64.ofInt_toInt]
      simp only [execute, Effect.offer, skip, flat, hpeek]
      rfl
  | adjustBase offset =>
      refine ⟨?_, h.value offset, fun hne => absurd rfl hne⟩
      have hpeek := Memory.peek_snd_value h offset
      simp only [Flat.carryOut, ← fst_value_flat h offset, Int64.ofInt_add, Int64.ofInt_toInt]
      simp only [execute, Effect.offer, skip, flat, hpeek]
      rfl
  | halt => exact ⟨rfl, h, fun _ => rfl⟩

end Machine

end WordMachine
