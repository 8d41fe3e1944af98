import WordMachine.Device.Terminal
import WordMachine.Number
import WordMachine.Proofs.Engine.Faults

/-!
# Engines stay in range

Nothing checks the program counter. It stays in range all the same, because three things hold
together: no instruction names an address behind the last one, so the cells there are zero; a zero is
no instruction, so whatever is executed stands at an address; and a jump is checked.

`Engine.Within` is what one call after the other keeps, and `Engine.stays_in_range` what follows from it
for all numbers that an engine deals with. The bound is on calls that do not overlap: an input that is
completed where the engine does not ask for it moves the program counter on by two once more.
-/

namespace WordMachine

/-! ## Operands -/

/-- The operand names a cell of the address space, if it names a cell. -/
def Operand.Addressable : Operand → Prop
  | .indirect a => a ≤ Memory.maxAddress
  | .immediate _ => True

namespace Machine

variable {m : Machine} {o : Operand}

theorem Resolves.addressable {k : Nat} (h : m.Resolves k o) : o.Addressable := by
  cases h with
  | position _ _ inside => exact inside
  | immediate _ => exact trivial
  | relative _ _ inside => exact inside

/-- An instruction that decodes names no cell behind the last one. -/
theorem addressable_of_decode {i : Instruction} (h : m.decode = .ok i) (ho : o ∈ i.operands) :
    o.Addressable := by
  rcases List.mem_iff_getElem.mp ho with ⟨k, hk, rfl⟩
  exact ((decode_eq_ok_iff.mp h).2 k hk).addressable

end Machine

/-! ## Memory -/

namespace Memory

variable {m : Memory} {a : Nat}

/-- Nothing is kept behind the last address. -/
structure Confined (m : Memory) : Prop where
  sound : m.Sound
  length_le : m.length ≤ maxAddress + 1
  sparse_le : ∀ a, a ∈ m.sparse → a ≤ maxAddress

/-- An image that fits into the address space leaves nothing behind its last address. -/
theorem confined_load {image : Image} (h : image.size ≤ maxAddress + 1) : (load image).Confined where
  sound := sound_load image
  length_le := h
  sparse_le := by
    intro a ha
    simp [load] at ha

theorem Confined.reach (h : m.Confined) (a : Nat) : (m.reach a).Confined where
  sound := h.sound.reach a
  length_le := by
    have hlimit : denseLimit ≤ maxAddress + 1 := by decide
    rcases length_reach (m := m) (a := a) with hsame | ⟨-, hgrown⟩
    · exact hsame ▸ h.length_le
    · exact Nat.le_trans hgrown hlimit
  sparse_le := by
    rw [sparse_reach]
    exact h.sparse_le

/-- Addresses of decoded operands are in range, so reading one makes no room behind the last
address. -/
theorem Confined.value (h : m.Confined) (o : Operand) : (m.value o).2.Confined := by
  cases o with
  | immediate w => exact h
  | indirect a => exact h.reach a

theorem Confined.write (h : m.Confined) (ha : a ≤ maxAddress) (w : Word) :
    (m.write a w).Confined where
  sound := h.sound.write a w
  length_le := by
    rw [length_write]
    exact (h.reach a).length_le
  sparse_le := by
    intro b hb
    rw [write_eq] at hb
    split at hb
    · exact (h.reach a).sparse_le b hb
    · rcases Std.TreeMap.mem_insert.mp hb with heq | hmem
      · have hab : a = b := by simpa using heq
        exact hab ▸ ha
      · exact (h.reach a).sparse_le b hmem

/-- Behind the last address there are only zeros. -/
theorem Confined.peek_eq_zero (h : m.Confined) (ha : maxAddress < a) : m.peek a = 0 := by
  refine peek_of_length_le (Nat.le_trans h.length_le ha) ?_
  intro hmem
  exact Nat.not_le_of_lt ha (h.sparse_le a hmem)

end Memory

/-! ## Machines -/

namespace Machine

variable {m : Machine} {i : Instruction}

/-- Behind the last address nothing decodes, and the complaint is about opcode zero. -/
theorem decode_of_beyond (h : m.memory.Confined) (hpc : Memory.maxAddress < m.pc) :
    m.decode = .error (.unknownOpcode 0 m.pc) := by
  have hword : m.word = 0 := by
    rw [word, h.peek_eq_zero hpc]
    rfl
  have hunknown : ∀ o, ¬ m.AsksFor o := by
    intro o ho
    exact absurd ho.1 (by omega)
  rw [decode_of_unknown hunknown, hword]
  rfl

/-- What is executed stands at an address. -/
theorem pc_le_of_decode (h : m.memory.Confined) (hdecode : m.decode = .ok i) :
    m.pc ≤ Memory.maxAddress := by
  by_contra hbeyond
  rw [decode_of_beyond h (Nat.lt_of_not_le hbeyond)] at hdecode
  cases hdecode

/-- An instruction moves the program counter by four at most, which is how far it may run past the
last address. -/
theorem width_le (o : Opcode) : o.width ≤ 4 := by
  cases o <;> decide

/-- An instruction at an address leaves memory confined, and moves on by its own width or jumps to an
address. -/
structure Moderate (r : Machine) : Prop where
  confined : r.memory.Confined
  pc_le : r.pc ≤ Memory.maxAddress + 4

theorem moderate_skip (h : m.memory.Confined) (hpc : m.pc ≤ Memory.maxAddress) (o : Opcode) :
    (m.skip o).Moderate where
  confined := h
  pc_le := Nat.add_le_add hpc (width_le o)

theorem moderate_store (h : m.memory.Confined) (hpc : m.pc ≤ Memory.maxAddress) (o : Opcode)
    (pc : Nat) {dest : Operand} (hdest : dest.Addressable) (w : Word) :
    (m.store o pc dest w).1.Moderate := by
  cases dest with
  | immediate literal => exact ⟨h, Nat.le_add_right_of_le hpc⟩
  | indirect a => exact ⟨h.write hdest w, Nat.add_le_add hpc (width_le o)⟩

/-- A jump lands in the address space or fails. -/
theorem address_le {value opcode pc : Int} {next : Nat} (h : address value opcode pc = .ok next) :
    next ≤ Memory.maxAddress := by
  unfold address at h
  split at h
  · cases h
    omega
  · cases h

theorem moderate_jump (h : m.memory.Confined) (hpc : m.pc ≤ Memory.maxAddress) (o : Opcode)
    (test : Word → Bool) (condition target : Operand) :
    (m.jump o test condition target).1.Moderate := by
  have hcondition := h.value condition
  have htarget := hcondition.value target
  simp only [jump]
  split
  · cases haddress :
      address ((m.memory.value condition).2.value target).1.toInt o.number m.pc with
    | ok next => exact ⟨htarget, Nat.le_add_right_of_le (address_le haddress)⟩
    | error why => exact ⟨htarget, Nat.le_add_right_of_le hpc⟩
  · exact moderate_skip (m := { m with memory := (m.memory.value condition).2 }) hcondition hpc o

/-- One instruction, wherever it stands, keeps memory confined and the program counter within reach. -/
theorem moderate_execute (h : m.memory.Confined) (hdecode : m.decode = .ok i) :
    (m.execute i).1.Moderate := by
  have hpc := pc_le_of_decode h hdecode
  have hpc' : m.pc ≤ Memory.maxAddress + 4 := Nat.le_add_right_of_le hpc
  cases i with
  | calculate c left right dest =>
      have hdest : dest.Addressable := addressable_of_decode hdecode (by simp [Instruction.operands])
      have hmemory := (h.value left).value right
      exact moderate_store (m := { m with memory := ((m.memory.value left).2.value right).2 })
        hmemory hpc c.opcode m.pc hdest _
  | jumpIfTrue condition target => exact moderate_jump h hpc .jumpIfTrue _ condition target
  | jumpIfFalse condition target => exact moderate_jump h hpc .jumpIfFalse _ condition target
  | input dest => exact ⟨h, hpc'⟩
  | output source => exact ⟨h.value source, hpc'⟩
  | adjustBase offset => exact ⟨h.value offset, Nat.add_le_add hpc (width_le .adjustRelativeBase)⟩
  | halt => exact ⟨h, hpc'⟩

end Machine

/-! ## Steps -/

namespace Engine

variable {σ : Type} {d : Device σ} {e e₀ : Engine} {s : σ} {pending : Pending}

@[simp] theorem machine_complete (e : Engine) (effect : Effect) :
    (e.complete effect).1.machine = e.machine := by
  cases effect <;> rfl

/-- A late input goes to an address, and moves the program counter on by two. -/
theorem resume_confined {p : Pending} (h : e.machine.memory.Confined) (hdest : p.dest.Addressable)
    (reply : Reply) :
    (e.resume p reply).1.machine.memory.Confined ∧
      (e.resume p reply).1.machine.pc ≤ e.machine.pc + 2 := by
  have hsame : e.machine.pc ≤ e.machine.pc + 2 := Nat.le_add_right _ _
  rcases p with ⟨pc, dest⟩
  cases reply with
  | wait => exact ⟨h, hsame⟩
  | endOfStream source => exact ⟨h, hsame⟩
  | fault why => exact ⟨h, hsame⟩
  | value n =>
      cases dest with
      | immediate literal => exact ⟨h, hsame⟩
      | indirect a => exact ⟨h.write hdest (Word.ofInt n), Nat.le_refl _⟩

/-- A step leaves the program counter where it is, or close behind an address. -/
theorem step_confined (h : e.machine.memory.Confined) (d : Device σ) (s : σ) :
    (e.step d s).1.machine.memory.Confined ∧
      (e.step d s).1.machine.pc ≤ max e.machine.pc (Memory.maxAddress + 4) := by
  cases hstop : e.status.stop? with
  | some how =>
      rw [step_of_stopped hstop]
      exact ⟨h, Nat.le_max_left _ _⟩
  | none =>
      rw [step_eq_meet]
      cases hdemand : e.demand with
      | input e₁ pending =>
          rcases eq_of_demand_eq_input hdemand with ⟨dest, -, hdecode, rfl, rfl⟩
          have hdest : dest.Addressable :=
            Machine.addressable_of_decode hdecode (List.mem_singleton.mpr rfl)
          have hpc := Machine.pc_le_of_decode h hdecode
          have hreply := resume_confined (e := e.executing (.input dest)) (p := ⟨e.machine.pc, dest⟩)
            (by rwa [machine_executing]) hdest (d.request s).1
          rw [machine_executing] at hreply
          refine ⟨hreply.1, ?_⟩
          have hpc' := hreply.2
          simp only [Demand.meet]
          omega
      | output e₁ w =>
          rcases eq_of_demand_eq_output hdemand with ⟨i, m, -, hdecode, hexec, rfl⟩
          have hmoderate := Machine.moderate_execute h hdecode
          have hsame := (untouched_of_execute h.sound hdecode hexec Effect.noConfusion).pc_eq
          have hpc := Machine.pc_le_of_decode h hdecode
          rw [hexec] at hmoderate
          simp only [Demand.meet]
          cases (d.emit w.toInt s).1 with
          | error why => exact ⟨hmoderate.confined, Nat.le_trans hmoderate.pc_le (Nat.le_max_right _ _)⟩
          | ok _ =>
              have hskip := Machine.moderate_skip (m := m) hmoderate.confined (hsame ▸ hpc) .output
              exact ⟨hskip.confined, Nat.le_trans hskip.pc_le (Nat.le_max_right _ _)⟩
      | nothing e₁ answer =>
          simp only [Demand.meet]
          rcases eq_of_demand_eq_nothing hstop hdemand with
            ⟨why, -, -, rfl⟩ | ⟨i, m, effect, hdecode, hexec, rfl, -⟩
          · exact ⟨h, Nat.le_max_left _ _⟩
          · have hmoderate := Machine.moderate_execute h hdecode
            rw [hexec] at hmoderate
            rw [machine_complete]
            exact ⟨hmoderate.confined, Nat.le_trans hmoderate.pc_le (Nat.le_max_right _ _)⟩

/-! ## Calls -/

/-- What calls keep that are made one after the other. -/
structure Within (e : Engine) : Prop where
  confined : e.machine.memory.Confined
  pc_le : e.machine.pc ≤ Memory.maxAddress + 4

theorem Within.step (h : e.Within) (d : Device σ) (s : σ) : (e.step d s).1.Within := by
  rcases step_confined h.confined d s with ⟨hconfined, hpc⟩
  exact ⟨hconfined, Nat.le_trans hpc (Nat.max_le.mpr ⟨h.pc_le, Nat.le_refl _⟩)⟩

/-- An input that the engine asks for stands at an address, so its reply moves on from there. -/
theorem Within.reply (h : e.Within) (hasks : e.Asks pending) (reply : Reply) :
    (e.resume pending reply).1.Within := by
  rcases hasks with ⟨e₁, hdemand⟩
  rcases eq_of_demand_eq_input hdemand with ⟨dest, -, hdecode, -, rfl⟩
  have hdest : dest.Addressable :=
    Machine.addressable_of_decode hdecode (List.mem_singleton.mpr rfl)
  have hpc := Machine.pc_le_of_decode h.confined hdecode
  rcases resume_confined (p := ⟨e.machine.pc, dest⟩) h.confined hdest reply with ⟨hconfined, hmoved⟩
  refine ⟨hconfined, ?_⟩
  omega

/-- The run lemma: what one step keeps, every reachable engine has. -/
theorem within_of_reached (hstart : e₀.Within) (h : Reached Asks e₀ e) : e.Within := by
  induction h with
  | start => exact hstart
  | begin before ih => exact ⟨ih.confined, ih.pc_le⟩
  | step before d s ih => exact ih.step d s
  | reply before hasks reply ih => exact ih.reply hasks reply

/-! ## Ranges -/

end Engine

/-- The device behind a guard that turns away whatever is no word. -/
def Device.guarded {σ : Type} (d : Device σ) : Device σ where
  request := d.request
  emit value s :=
    if Word.InRange value then d.emit value s else (.error (.device "not a word"), s)

namespace Engine

variable {σ : Type} {e : Engine}

/-- The guard never has anything to do: an engine emits words only. -/
theorem step_guarded (e : Engine) (d : Device σ) (s : σ) : e.step d.guarded s = e.step d s := by
  rw [step_eq_meet, step_eq_meet]
  cases e.demand with
  | nothing e₁ answer => rfl
  | input e₁ pending => rfl
  | output e₁ w => simp only [Demand.meet, Device.guarded, Word.inRange_toInt, if_true]

/-- Beyond the last address every cell reads zero, which is no opcode. So the engine fails there
instead of going on. -/
theorem step_of_beyond (h : e.machine.memory.Confined) (hpc : Memory.maxAddress < e.machine.pc)
    (hgoing : e.status.stop? = none) (d : Device σ) (s : σ) :
    e.step d s = ({ e with status := .running }.fail (.unknownOpcode 0 e.machine.pc), s,
      .answered (.error (.unknownOpcode 0 e.machine.pc))) := by
  rw [step_eq_meet, demand_of_error hgoing (Machine.decode_of_beyond h hpc)]
  rfl

/-- The state of an engine is in range. -/
structure Ranged (e : Engine) : Prop where
  pc_le : e.machine.pc ≤ Memory.maxAddress + 4
  base_inRange : Word.InRange e.machine.base.toInt
  dense_inRange : ∀ i (h : i < e.machine.memory.dense.size),
    Word.InRange e.machine.memory.dense[i].toInt
  sparse_inRange : ∀ a w, e.machine.memory.sparse[a]? = some w →
    Memory.denseLimit ≤ a ∧ a ≤ Memory.maxAddress ∧ Word.InRange w.toInt
  emits_words : ∀ {σ : Type} (d : Device σ) (s : σ), e.step d.guarded s = e.step d s
  beyond : Memory.maxAddress < e.machine.pc → e.status.stop? = none →
    ∀ {σ : Type} (d : Device σ) (s : σ),
      (e.step d s).1.status = .faulted (.unknownOpcode 0 e.machine.pc) ∧
        (e.step d s).2 = (s, .answered (.error (.unknownOpcode 0 e.machine.pc)))
  -- Whatever is computed from addresses is an integer of less than 53 bits.
  fetch_lt : e.machine.pc + 3 < Number.significandBound
  operand_lt : ∀ i a, e.machine.decode = .ok i → .indirect a ∈ i.operands →
    2 * a + 1 < Number.significandBound
  length_lt : 2 * e.machine.memory.length < Number.significandBound

theorem Within.ranged (h : e.Within) : e.Ranged where
  pc_le := h.pc_le
  base_inRange := Word.inRange_toInt _
  dense_inRange := fun _ _ => Word.inRange_toInt _
  sparse_inRange := by
    intro a w hw
    have hmem : a ∈ e.machine.memory.sparse :=
      Std.TreeMap.mem_iff_isSome_getElem?.mpr (by rw [hw]; rfl)
    have hdense := Nat.le_trans (Nat.le_max_right _ _) (h.confined.sound a hmem)
    exact ⟨hdense, h.confined.sparse_le a hmem, Word.inRange_toInt w⟩
  emits_words := step_guarded e
  beyond := by
    intro hpc hgoing σ d s
    rw [step_of_beyond h.confined hpc hgoing]
    exact ⟨rfl, rfl⟩
  fetch_lt := by
    have hpc := h.pc_le
    unfold Memory.maxAddress at hpc
    unfold Number.significandBound
    omega
  operand_lt := by
    intro i a hdecode ha
    have haddress : a ≤ Memory.maxAddress := Machine.addressable_of_decode hdecode ha
    unfold Memory.maxAddress at haddress
    unfold Number.significandBound
    omega
  length_lt := by
    have hlength := h.confined.length_le
    unfold Memory.maxAddress at hlength
    unfold Number.significandBound
    omega

/-- Every state is in range that an engine comes to by calls one after the other, on whatever devices and
with any replies, if its image fits the address space: a call that waits for its input goes on while the
engine still asks for it. The program counter is four behind the last address at most, and where it is
behind that address the next step complains about opcode zero. Registers, cells and whatever is emitted
are words, and cells outside the buffer are addressable. So no address, and nothing that is computed from
one, leaves the exactly representable integers. -/
theorem stays_in_range (name : String) (trace : Bool) (values : List Int)
    (hlength : values.length ≤ Memory.maxAddress + 1)
    (h : Reached Asks (Engine.load name (Image.ofIntegers values) trace) e) : e.Ranged := by
  have hsize : (Image.ofIntegers values).size ≤ Memory.maxAddress + 1 := by
    simpa [Image.ofIntegers] using hlength
  have hstart : (Engine.load name (Image.ofIntegers values) trace).Within :=
    ⟨Memory.confined_load hsize, Nat.zero_le _⟩
  exact (within_of_reached hstart h).ranged

/-- The last word of an input instruction is the last address. Its reply moves the program counter on
behind that address, where the next step fails. -/
theorem stays_in_range_last_address :
    ∃ e, Reached Asks (Engine.load "engine"
        (Image.ofIntegers [1101, 3, 0, 4294967294, 1106, 0, 4294967294])) e ∧
      e.machine.pc = 4294967296 ∧ e.Ranged ∧
      (e.step Console.terminal (Console.ofText "")).1.status =
        .faulted (.unknownOpcode 0 4294967296) := by
  have hstored : Reached Asks (Engine.load "engine"
      (Image.ofIntegers [1101, 3, 0, 4294967294, 1106, 0, 4294967294])) _ :=
    .step .start Console.terminal (Console.ofText "")
  have hasked := (hstored.step Console.terminal (Console.ofText "")).step Console.terminal
    (Console.ofText "")
  have hbehind : Reached Asks _ (resume _ ⟨4294967294, .indirect 0⟩ (.value 7)).1 :=
    hasked.reply ⟨_, rfl⟩ (.value 7)
  have hranged := stays_in_range "engine" false _ (by decide) hbehind
  exact ⟨_, hbehind, rfl, hranged, (hranged.beyond (by decide) rfl _ _).1⟩

end Engine

end WordMachine
