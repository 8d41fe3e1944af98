import WordMachine.Proofs.Decoding
import WordMachine.Proofs.Image.Written
import Mathlib.Data.List.Nodup

/-!
# Disassembly

What an instruction is shown as falls into tokens as a program text does: the mnemonic, and then one
token for each operand (`Instruction.tokens_text`). A mnemonic tells the opcode and a token the operand,
so no two instructions are shown alike (`Instruction.text_injective`).
-/

namespace WordMachine

open Image (isSeparator)

/-! ## Mnemonics -/

namespace Opcode

theorem mnemonic_injective : Function.Injective mnemonic := by
  have hdistinct : (all.map mnemonic).Nodup := by decide +kernel
  have hall : ∀ o : Opcode, o ∈ all := by
    intro o
    cases o <;> decide
  intro o o' h
  exact List.inj_on_of_nodup_map hdistinct (hall o) (hall o') h

/-- The parts of a mnemonic are joined by hyphens. -/
theorem unbroken_mnemonic (o : Opcode) :
    o.mnemonic.toList ≠ [] ∧ ∀ c ∈ o.mnemonic.toList, isSeparator c = false := by
  have hsome : o.mnemonic.toList ≠ [] := by
    cases o <;> decide +kernel
  have hinside : o.mnemonic.toList.all (fun c => isSeparator c == false) = true := by
    cases o <;> decide +kernel
  refine ⟨hsome, ?_⟩
  intro c hc
  exact eq_of_beq (List.all_eq_true.mp hinside c hc)

end Opcode

/-! ## Operands -/

namespace Operand

theorem toList_text_indirect (a : Nat) :
    (indirect a).text.toList = '[' :: ((Text.ofInteger a).toList ++ [']']) := by
  have haddress : toString a = Text.ofInteger a := rfl
  simp [text, haddress]

theorem toList_text_immediate (w : Word) :
    (immediate w).text.toList = (Text.ofInteger w.toInt).toList := rfl

/-- Only what stands in brackets is a cell. -/
theorem text_indirect_ne (a : Nat) (w : Word) : (indirect a).text ≠ (immediate w).text := by
  intro h
  have hbracket : '[' ∈ (Text.ofInteger w.toInt).toList := by
    rw [← toList_text_immediate, ← h, toList_text_indirect]
    exact List.mem_cons_self
  have hsign := (Text.denotes_ofInteger w.toInt).digit_or_sign '[' hbracket
  revert hsign
  decide

theorem text_injective : Function.Injective text := by
  intro x y h
  cases x with
  | indirect a =>
      cases y with
      | indirect b =>
          have hchars := congrArg String.toList h
          rw [toList_text_indirect, toList_text_indirect, List.cons.injEq,
            List.append_cancel_right_eq, String.toList_inj] at hchars
          have hsame : (a : Int) = b := Text.ofInteger_injective hchars.2
          rw [Int.ofNat_inj.mp hsame]
      | immediate w => exact absurd h (text_indirect_ne a w)
  | immediate v =>
      cases y with
      | indirect b => exact absurd h.symm (text_indirect_ne b v)
      | immediate w =>
          have hsame : v.toInt = w.toInt := Text.ofInteger_injective h
          rw [Int64.toInt_inj.mp hsame]

theorem unbroken_text (x : Operand) :
    x.text.toList ≠ [] ∧ ∀ c ∈ x.text.toList, isSeparator c = false := by
  cases x with
  | indirect a =>
      rw [toList_text_indirect]
      refine ⟨List.cons_ne_nil _ _, ?_⟩
      intro c hc
      rw [List.mem_cons, List.mem_append, List.mem_singleton] at hc
      rcases hc with rfl | hc | rfl
      · decide
      · exact Image.isSeparator_of_denotes (Text.denotes_ofInteger a) c hc
      · decide
  | immediate w =>
      rw [toList_text_immediate]
      have hdenotes := Text.denotes_ofInteger w.toInt
      exact ⟨hdenotes.ne_nil, Image.isSeparator_of_denotes hdenotes⟩

end Operand

/-! ## Instructions -/

namespace Instruction

/-- The mnemonic and the operands can be told apart. -/
theorem tokens_text (i : Instruction) :
    Image.tokens i.text =
      i.opcode.mnemonic.toList :: i.operands.map fun x => x.text.toList := by
  have hruns : Text.Runs isSeparator i.text.toList
      (i.opcode.mnemonic.toList :: i.operands.map fun x => x.text.toList) := by
    rcases i.opcode.unbroken_mnemonic with ⟨hsome, hinside⟩
    have hblank : isSeparator ' ' = true := by decide
    unfold text
    cases i.operands with
    | nil =>
        have hrun := Text.Runs.run hsome hinside (by simp) Text.Runs.nil
        rwa [List.append_nil] at hrun
    | cons x l =>
        have hseparators : ", ".toList.all isSeparator = true := by decide
        have hoperands : Text.Runs isSeparator
            (", ".toList.intercalate ((x :: l).map fun x => x.text.toList))
            ((x :: l).map fun x => x.text.toList) := by
          refine Text.runs_intercalate (by decide) (List.all_eq_true.mp hseparators) ?_
          rw [List.forall_mem_map]
          intro x _
          exact x.unbroken_text
        have hrun := Text.Runs.run hsome hinside (by simpa using hblank) (.skip hblank hoperands)
        simpa [String.toList_intercalate, Function.comp_def] using hrun
  exact hruns.eq_fields.symm

/-- An instruction can be told from its disassembly. -/
theorem text_injective : Function.Injective text := by
  intro i j h
  have htokens : Image.tokens i.text = Image.tokens j.text := congrArg Image.tokens h
  rw [tokens_text, tokens_text, List.cons.injEq, String.toList_inj] at htokens
  have hopcode : i.opcode = j.opcode := Opcode.mnemonic_injective htokens.1
  have hshown : Function.Injective fun x : Operand => x.text.toList := fun x y hxy =>
    Operand.text_injective (String.toList_inj.mp hxy)
  have hoperands : i.operands = j.operands := List.map_injective_iff.mpr hshown htokens.2
  rw [← Opcode.instruction_opcode_operands i, ← Opcode.instruction_opcode_operands j, hopcode,
    hoperands]

/-- Disassembly is unambiguous. Let two instructions be decoded, from any memories, at any program
counters and with any relative bases. If they are shown alike, they are of one kind, with one opcode
number, and the same operands stand in the same places: cells with the same addresses and literals with
the same values. -/
theorem text_unambiguous (m m' : Machine) (i i' : Instruction) :
    m.decode = .ok i → m'.decode = .ok i' → i.text = i'.text →
      i.opcode.name = i'.opcode.name ∧ i.opcode.number = i'.opcode.number ∧
        i.operands = i'.operands ∧ i = i' := by
  intro _ _ htext
  rcases text_injective htext with rfl
  exact ⟨rfl, rfl, rfl, rfl⟩

/-- A sum whose cells are named by their addresses, and one further on in memory whose cells are counted
from the relative base. -/
theorem text_unambiguous_relative :
    ∃ (m m' : Machine) (i i' : Instruction),
      m.memory.peek m.pc = 101 ∧ m'.memory.peek m'.pc = 22101 ∧ m'.base = 10 ∧
      m.decode = .ok i ∧ m'.decode = .ok i' ∧ i.text = "ADD -5, [13], [14]" ∧ i.text = i'.text ∧
        i.opcode.name = i'.opcode.name ∧ i.opcode.number = i'.opcode.number ∧
          i.operands = i'.operands ∧ i = i' := by
  let m : Machine := Machine.load (Image.ofIntegers [101, -5, 13, 14])
  let m' : Machine :=
    { memory := Memory.load (Image.ofIntegers [99, 22101, -5, 3, 4]), pc := 1, base := 10 }
  let i : Instruction := .calculate .add (.immediate (-5)) (.indirect 13) (.indirect 14)
  have hdecode : m.decode = .ok i := by decide +kernel
  have hdecode' : m'.decode = .ok i := by decide +kernel
  have htext : i.text = "ADD -5, [13], [14]" := by decide +kernel
  exact ⟨m, m', i, i, by decide +kernel, by decide +kernel, rfl, hdecode, hdecode', htext, rfl,
    text_unambiguous m m' i i hdecode hdecode' rfl⟩

end Instruction

end WordMachine
