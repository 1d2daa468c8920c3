import Famicom.Proofs.Cpu.Arithmetic

/-!
# Masked stores

Four operations that are not documented store a byte under a mask: the high byte of the address
before indexing, plus one. If indexing leaves the page, the byte stored takes the place of the high
byte of the address as well. When an operation is performed, indexing is over, and the address that
it began with is found again by taking the index away.

* `Effect.letThrough`, `Effect.storeTarget`: the byte and its address, in numbers.
* `Effect.maskedValue_add`, `Effect.maskedAddress_indexed`: they are found from the sum.
* `Cpu.recoversBase`: what the four operations write, from which base.
-/

namespace Famicom

open SystemBus

/-! ## Bytes and addresses -/

namespace Effect

/-- What the high byte of a base, plus one, lets through of a byte. -/
def letThrough (base : UInt16) (value : UInt8) : UInt8 :=
  value &&& .ofNat ((base.toNat / 0x100 + 1) % 0x100)

/-- Where a byte goes from a base: to the sum with the index, or, if the low byte of the base
carries, to the low byte of the sum in the page that the byte itself names. -/
def storeTarget (base : UInt16) (index written : UInt8) : UInt16 :=
  if base.toNat % 0x100 + index.toNat < 0x100 then .ofNat ((base.toNat + index.toNat) % 0x10000)
  else .ofNat (0x100 * written.toNat + (base.toNat + index.toNat) % 0x100)

/-- Without the index, the sum is the base again, even if it has wrapped round. -/
theorem maskedValue_add (base : UInt16) (index value : UInt8) :
    maskedValue (base + index.toUInt16) index value = letThrough base value := by
  have hbase : base + index.toUInt16 - index.toUInt16 = base := by grind
  have hmask : Word.high base + 1 = .ofNat ((base.toNat / 0x100 + 1) % 0x100) := by
    apply UInt8.toNat_inj.mp
    rw [UInt8.toNat_add, Word.toNat_high, UInt8.toNat_ofNat', Nat.mod_mod]
    rfl
  rw [maskedValue, hbase, hmask, letThrough]

theorem maskedAddress_indexed (base : UInt16) (index written : UInt8) :
    maskedAddress (.indexed base index) written = storeTarget base index written := by
  have hwritten := written.toNat_lt
  obtain ⟨address, crossed, hindexed, haddress, hcrossed⟩ := Operand.liesAt_indexed base index
  rw [hindexed, maskedAddress, Operand.crossed, Operand.address, storeTarget]
  cases crossed with
  | false =>
    have hstays : base.toNat % 0x100 + index.toNat < 0x100 :=
      Nat.lt_of_not_le fun hle => Bool.false_ne_true (hcrossed.mpr hle)
    rw [if_neg Bool.false_ne_true, if_pos hstays, ← haddress, UInt16.ofNat_toNat]
  | true =>
    have hleaves := hcrossed.mp rfl
    rw [if_pos rfl, if_neg (by omega)]
    apply UInt16.toNat_inj.mp
    rw [Word.toNat_ofBytes, Word.toNat_low, haddress, UInt16.toNat_ofNat']
    omega

/-- At the end of the address space, the mask is zero, and so is the page. -/
example : letThrough 0xFFFF 0xFF = 0 ∧ storeTarget 0xFFFF 0x02 0 = 0x0001 := by decide

end Effect

/-! ## Bases -/

/-- The modes of the operations that store under a mask. -/
theorem Opcode.mode_of_maskedStore (code : UInt8) :
    ((ofByte code).operation = .shy → (ofByte code).mode = .absoluteX) ∧
      ((ofByte code).operation = .shx ∨ (ofByte code).operation = .tas →
        (ofByte code).mode = .absoluteY) ∧
      ((ofByte code).operation = .ahx →
        (ofByte code).mode = .absoluteY ∨ (ofByte code).mode = .indirectIndexed) := by
  refine forall_of_table (P := fun opcode =>
    (opcode.operation = .shy → opcode.mode = .absoluteX) ∧
      (opcode.operation = .shx ∨ opcode.operation = .tas → opcode.mode = .absoluteY) ∧
      (opcode.operation = .ahx → opcode.mode = .absoluteY ∨ opcode.mode = .indirectIndexed)) ?_ code
  decide +kernel

theorem Recorder.writes_resolve {B : Type} [SystemBus B] (recorder : Recorder B)
    (mode : AddressingMode) (r : Registers) :
    (mode.resolve r recorder).2.2.writes = recorder.writes := by
  cases mode <;> rfl

namespace Cpu

variable {T B : Type} [SystemBus B] {cpu : Cpu T} {bus : B} {operation : Operation}

/-- The word behind the opcode of the next instruction. -/
def operandWord (cpu : Cpu T) (bus : B) : UInt16 :=
  let (_, registers, bus) := cpu.registers.fetchByte bus
  (registers.fetchWord bus).1

/-- What the pointer of page zero holds that the byte behind the opcode names. -/
def operandPointer (cpu : Cpu T) (bus : B) : UInt16 :=
  let (_, registers, bus) := cpu.registers.fetchByte bus
  let (pointer, _, bus) := registers.fetchByte bus
  (readPointer bus pointer.toUInt16).1

theorem nextOperand_of_absoluteX (h : (cpu.nextOpcode bus).mode = .absoluteX) :
    (cpu.nextOperand bus).1 = .indexed (cpu.operandWord bus) cpu.registers.x := by
  rw [nextOperand, h]
  rfl

theorem nextOperand_of_absoluteY (h : (cpu.nextOpcode bus).mode = .absoluteY) :
    (cpu.nextOperand bus).1 = .indexed (cpu.operandWord bus) cpu.registers.y := by
  rw [nextOperand, h]
  rfl

theorem nextOperand_of_indirectIndexed (h : (cpu.nextOpcode bus).mode = .indirectIndexed) :
    (cpu.nextOperand bus).1 = .indexed (cpu.operandPointer bus) cpu.registers.y := by
  rw [nextOperand, h]
  rfl

/-! ## Instructions -/

/-- The next instruction writes one byte and nothing else: what the base lets through of a value,
at the address to which the index leads. Afterwards the registers are as given. -/
structure StoresMasked (cpu : Cpu T) (bus : B) (base : UInt16) (index value : UInt8)
    (later : Registers) : Prop where
  writes : cpu.stepWrites bus =
    [(Effect.storeTarget base index (Effect.letThrough base value),
      Effect.letThrough base value)]
  operated : cpu.operated bus =
    write (cpu.nextOperand bus).2.2
      (Effect.storeTarget base index (Effect.letThrough base value))
      (Effect.letThrough base value)
  registers : (cpu.step bus).2.1.registers = later

/-- An instruction writes what its effect writes. -/
theorem stepWrites_of_running (h : cpu.Performs bus operation) (hkil : operation ≠ .kil) :
    cpu.stepWrites bus =
      (operation.effect.run (cpu.nextOperand bus).1 (cpu.behind bus)
        (cpu.nextOperand (Recorder.start bus)).2.2).2.writes := by
  obtain ⟨hrunning, rfl⟩ := h
  have hstep : cpu.step (Recorder.start bus) = _ := step_of_running hrunning hkil
  rw [stepWrites, hstep, Recorder.writes_perform, ← registers_nextOperand,
    cpu.nextOperand_start bus]
  rfl

/-- What an operation that stores under a mask writes where its operand has been indexed. -/
theorem storesMasked_of_indexed {base : UInt16} {index value : Registers → UInt8}
    {prepare : Registers → Registers} (h : cpu.Performs bus operation)
    (heffect : operation.effect = .storeMasked index value prepare)
    (hoperand : (cpu.nextOperand bus).1 = .indexed base (index (prepare (cpu.behind bus)))) :
    cpu.StoresMasked bus base (index (prepare (cpu.behind bus)))
      (value (prepare (cpu.behind bus))) (prepare (cpu.behind bus)) := by
  have hkil : operation ≠ .kil := by
    rintro rfl
    exact Effect.noConfusion heffect
  have hrun {B : Type} [SystemBus B] (other : B) :
      operation.effect.run (cpu.nextOperand bus).1 (cpu.behind bus) other =
        (prepare (cpu.behind bus), write other
          (Effect.storeTarget base (index (prepare (cpu.behind bus)))
            (Effect.letThrough base (value (prepare (cpu.behind bus)))))
          (Effect.letThrough base (value (prepare (cpu.behind bus))))) := by
    rw [heffect, hoperand, ← Effect.maskedAddress_indexed, ← Effect.maskedValue_add]
    rfl
  refine ⟨?_, ?_, ?_⟩
  · have hunwritten : (cpu.nextOperand (Recorder.start bus)).2.2.writes = [] :=
      Recorder.writes_resolve _ _ _
    rw [stepWrites_of_running h hkil, hrun]
    show _ :: (cpu.nextOperand (Recorder.start bus)).2.2.writes = _
    rw [hunwritten]
  · rw [operated, h.2, registers_nextOperand, hrun]
  · rw [registers_step h hkil, hrun]

/-- The four operations find the base again, whatever the processor and the bus: Y is stored from
an address indexed by X, and the others from one indexed by Y. No flag changes. -/
structure RecoversBase (cpu : Cpu T) (bus : B) : Prop where
  shy : cpu.Performs bus .shy →
    cpu.StoresMasked bus (cpu.operandWord bus) cpu.registers.x cpu.registers.y (cpu.behind bus)
  shx : cpu.Performs bus .shx →
    cpu.StoresMasked bus (cpu.operandWord bus) cpu.registers.y cpu.registers.x (cpu.behind bus)
  /-- What is shared by the accumulator and X, from either kind of base. -/
  ahx : cpu.Performs bus .ahx →
    (cpu.nextOpcode bus).mode = .absoluteY ∧
        cpu.StoresMasked bus (cpu.operandWord bus) cpu.registers.y
          (cpu.registers.a &&& cpu.registers.x) (cpu.behind bus) ∨
      (cpu.nextOpcode bus).mode = .indirectIndexed ∧
        cpu.StoresMasked bus (cpu.operandPointer bus) cpu.registers.y
          (cpu.registers.a &&& cpu.registers.x) (cpu.behind bus)
  /-- The stack pointer takes it too. -/
  tas : cpu.Performs bus .tas →
    cpu.StoresMasked bus (cpu.operandWord bus) cpu.registers.y
      (cpu.registers.a &&& cpu.registers.x)
      { cpu.behind bus with sp := cpu.registers.a &&& cpu.registers.x }

theorem recoversBase (cpu : Cpu T) (bus : B) : cpu.RecoversBase bus where
  shy h :=
    have hmode := (Opcode.mode_of_maskedStore (read bus cpu.registers.pc).1).1 h.2
    storesMasked_of_indexed h rfl (nextOperand_of_absoluteX hmode)
  shx h :=
    have hmode := (Opcode.mode_of_maskedStore (read bus cpu.registers.pc).1).2.1 (.inl h.2)
    storesMasked_of_indexed h rfl (nextOperand_of_absoluteY hmode)
  ahx h :=
    ((Opcode.mode_of_maskedStore (read bus cpu.registers.pc).1).2.2 h.2).imp
      (fun hmode =>
        ⟨hmode, storesMasked_of_indexed h rfl (nextOperand_of_absoluteY hmode)⟩)
      fun hmode =>
        ⟨hmode, storesMasked_of_indexed h rfl (nextOperand_of_indirectIndexed hmode)⟩
  tas h :=
    have hmode := (Opcode.mode_of_maskedStore (read bus cpu.registers.pc).1).2.1 (.inr h.2)
    storesMasked_of_indexed h rfl (nextOperand_of_absoluteY hmode)

end Cpu

end Famicom
