import Famicom.Proofs.Cpu.Timetable

/-!
# Where operands lie

Each addressing mode has a rule of its own for what happens at the end of a page or of the address
space. Here the rules are stated on numbers: the address of an operand is a sum of what has been
read, taken modulo the size of the space in which the mode counts.

* `SystemBus.ReadsPurely`: a memory that is not changed by reads.
* `AddressingMode.resolve_registers`: an operand only advances the program counter, by its length.
* `Operand.LiesAt`: the address of an operand, and when another page has been reached.
* `Registers.findsOperands`: what each mode gives.
-/

namespace Famicom

open SystemBus

variable {B : Type} [SystemBus B]

/-- Reads do not change the bus; `memory` says what is read. -/
def SystemBus.ReadsPurely (bus : B) (memory : UInt16 → UInt8) : Prop :=
  ∀ address, SystemBus.read bus address = (memory address, bus)

/-! ## Words in numbers -/

namespace Word

theorem toNat_ofInt (n : Int) : (UInt16.ofInt n).toNat = (n % 0x10000).toNat := by
  have hpos : 0 ≤ n % 0x10000 := Int.emod_nonneg n (by decide)
  have hlt : n % 0x10000 < 0x10000 := Int.emod_lt_of_pos n (by decide)
  rw [UInt16.ofInt, UInt16.toNat_ofNat']
  omega

end Word

/-- The byte at an address, which counts modulo the size of the address space. -/
def byteAt (memory : UInt16 → UInt8) (address : Nat) : Nat := (memory (.ofNat address)).toNat

/-- The word whose bytes lie at two addresses. -/
def wordAt (memory : UInt16 → UInt8) (low high : Nat) : Nat :=
  byteAt memory low + 0x100 * byteAt memory high

namespace Registers

/-- The byte at the program counter. -/
def byteOperand (r : Registers) (memory : UInt16 → UInt8) : Nat := byteAt memory r.pc.toNat

/-- The word at the program counter. -/
def wordOperand (r : Registers) (memory : UInt16 → UInt8) : Nat :=
  wordAt memory r.pc.toNat (r.pc.toNat + 1)

end Registers

theorem byteAt_toNat (memory : UInt16 → UInt8) (address : UInt16) :
    byteAt memory address.toNat = (memory address).toNat := by
  rw [byteAt, UInt16.ofNat_toNat]

theorem Registers.byteOperand_eq (r : Registers) (memory : UInt16 → UInt8) :
    r.byteOperand memory = (memory r.pc).toNat :=
  byteAt_toNat memory r.pc

/-! ## Reading -/

theorem AddressingMode.one_le_bytes (mode : AddressingMode) : 1 ≤ mode.bytes := by
  cases mode <;> decide

/-- An operand advances the program counter by its length, and changes no other register. -/
theorem AddressingMode.resolve_registers (mode : AddressingMode) (r : Registers) (bus : B) :
    (mode.resolve r bus).2.1 = { r with pc := r.pc + UInt16.ofNat (mode.bytes - 1) } := by
  have hnone : r.pc + UInt16.ofNat 0 = r.pc := UInt16.add_zero r.pc
  have htwo : r.pc + UInt16.ofNat 2 = r.pc + 1 + 1 := by grind
  cases mode with
  | implied | accumulator =>
    show r = { r with pc := r.pc + UInt16.ofNat 0 }
    rw [hnone]
  | absolute | absoluteX | absoluteY | indirect =>
    show _ = { r with pc := r.pc + UInt16.ofNat 2 }
    rw [htwo]
    rfl
  | _ => rfl

/-- With its opcode, an instruction advances the program counter by its length. -/
theorem Opcode.resolve_registers (opcode : Opcode) (r : Registers) (bus : B) :
    (opcode.mode.resolve { r with pc := r.pc + 1 } bus).2.1 =
      { r with pc := r.pc + UInt16.ofNat opcode.bytes } := by
  obtain ⟨more, hmore⟩ := Nat.exists_eq_add_of_le' opcode.mode.one_le_bytes
  have hpc : r.pc + 1 + UInt16.ofNat more = r.pc + UInt16.ofNat (more + 1) := by
    rw [UInt16.ofNat_add]
    grind
  rw [AddressingMode.resolve_registers, bytes, hmore, Nat.add_sub_cancel, ← hpc]

namespace SystemBus.ReadsPurely

variable {bus : B} {memory : UInt16 → UInt8}

theorem fetchByte (h : ReadsPurely bus memory) (r : Registers) :
    r.fetchByte bus = (memory r.pc, { r with pc := r.pc + 1 }, bus) := by
  rw [Registers.fetchByte, h]

theorem fetchWord (h : ReadsPurely bus memory) (r : Registers) :
    r.fetchWord bus =
      (Word.ofBytes (memory r.pc) (memory (r.pc + 1)), { r with pc := r.pc + 1 + 1 }, bus) := by
  rw [Registers.fetchWord, h.fetchByte]
  dsimp only
  rw [h.fetchByte]

theorem readPointer (h : ReadsPurely bus memory) (low : UInt16) :
    Famicom.readPointer bus low =
      (Word.ofBytes (memory low) (memory (Word.ofBytes (Word.low low + 1) (Word.high low))),
        bus) := by
  rw [Famicom.readPointer]
  dsimp only
  rw [h]
  dsimp only
  rw [h]

/-- The word that is fetched, as a number. -/
theorem toNat_fetchWord (h : ReadsPurely bus memory) (r : Registers) :
    (r.fetchWord bus).1.toNat = r.wordOperand memory := by
  have hnext : r.pc + 1 = UInt16.ofNat (r.pc.toNat + 1) := by
    rw [UInt16.ofNat_add, UInt16.ofNat_toNat]
    rfl
  rw [h.fetchWord, Word.toNat_ofBytes, Registers.wordOperand, wordAt, byteAt_toNat, hnext]
  rfl

/-- The high byte of a pointer is read in the page of the low one. -/
theorem toNat_readPointer (h : ReadsPurely bus memory) (low : UInt16) :
    (Famicom.readPointer bus low).1.toNat =
      wordAt memory low.toNat (low.toNat / 0x100 * 0x100 + (low.toNat + 1) % 0x100) := by
  have hnext : (Word.ofBytes (Word.low low + 1) (Word.high low)).toNat =
      low.toNat / 0x100 * 0x100 + (low.toNat + 1) % 0x100 := by
    rw [Word.toNat_ofBytes, UInt8.toNat_add, Word.toNat_low, Word.toNat_high]
    show (low.toNat % 0x100 + 1) % 0x100 + _ = _
    omega
  rw [h.readPointer, Word.toNat_ofBytes, wordAt, ← hnext, byteAt_toNat, byteAt_toNat]

/-- In page zero it is the next byte, after `$FF` the one at `$00`. -/
theorem toNat_readPointer_zeroPage (h : ReadsPurely bus memory) (low : UInt8) :
    (Famicom.readPointer bus low.toUInt16).1.toNat =
      wordAt memory low.toNat ((low.toNat + 1) % 0x100) := by
  have hlt := low.toNat_lt
  have hpage : low.toNat / 0x100 * 0x100 + (low.toNat + 1) % 0x100 = (low.toNat + 1) % 0x100 := by
    omega
  rw [h.toNat_readPointer, UInt8.toNat_toUInt16, hpage]

/-- An operand changes nothing on the bus. -/
theorem resolve (h : ReadsPurely bus memory) (mode : AddressingMode) (r : Registers) :
    (mode.resolve r bus).2.2 = bus := by
  cases mode <;> simp only [AddressingMode.resolve, h.fetchByte, h.fetchWord, h.readPointer]

end SystemBus.ReadsPurely

/-! ## Addresses -/

/-- An operand lies in memory at an address, and it lies on another page under some condition. -/
def Operand.LiesAt (operand : Operand) (address : Nat) (crossed : Prop) : Prop :=
  ∃ cell flag, operand = .memory cell flag ∧ cell.toNat = address ∧ (flag = true ↔ crossed)

namespace Operand

theorem liesAt_memory {cell : UInt16} {address : Nat} (h : cell.toNat = address) :
    (memory cell false).LiesAt address False :=
  ⟨cell, false, rfl, h, by simp⟩

/-- Indexing leaves the page if adding to the low byte carries. -/
theorem liesAt_indexed (base : UInt16) (index : UInt8) :
    (indexed base index).LiesAt ((base.toNat + index.toNat) % 0x10000)
      (0x100 ≤ base.toNat % 0x100 + index.toNat) := by
  have hbase := base.toNat_lt
  have hindex := index.toNat_lt
  have hsum : (base + index.toUInt16).toNat = (base.toNat + index.toNat) % 0x10000 := by
    rw [UInt16.toNat_add, UInt8.toNat_toUInt16]
  refine ⟨_, _, rfl, hsum, ?_⟩
  rw [bne_iff_ne, ne_eq, ← UInt8.toNat_inj, Word.toNat_high, Word.toNat_high, hsum]
  omega

/-- A branch leads to a distance from the next instruction. -/
theorem liesAt_branch (r : Registers) (bus : B) :
    (AddressingMode.relative.resolve r bus).1.LiesAt
      (((r.pc + 1).toNat + Alu.signed (read bus r.pc).1) % 0x10000).toNat
      ((r.pc + 1).toNat / 0x100 ≠
        (((r.pc + 1).toNat + Alu.signed (read bus r.pc).1) % 0x10000).toNat / 0x100) := by
  have htarget := Word.toNat_ofInt ((r.pc + 1).toNat + Alu.signed (read bus r.pc).1)
  refine ⟨_, _, AddressingMode.resolve_relative r bus, htarget, ?_⟩
  rw [Registers.branchLeavesPage, bne_iff_ne, ne_eq, ← UInt8.toNat_inj, Word.toNat_high,
    Word.toNat_high, Registers.branchTarget, htarget]

end Operand

/-! ## The modes -/

namespace Registers

open AddressingMode

/-- What the modes make of the bytes at the program counter. -/
structure FindsOperands (r : Registers) (bus : B) (memory : UInt16 → UInt8) : Prop where
  /-- The program counter advances by the length of the operand, and no other register changes. -/
  registers : ∀ mode : AddressingMode,
    (mode.resolve r bus).2.1 = { r with pc := r.pc + UInt16.ofNat (mode.bytes - 1) }
  /-- So with its opcode, each instruction advances it by its length. -/
  length : ∀ code : UInt8,
    ((Opcode.ofByte code).mode.resolve { r with pc := r.pc + 1 } bus).2.1.pc - r.pc =
      UInt16.ofNat (Opcode.ofByte code).bytes
  /-- The bus does not change. -/
  unchanged : ∀ mode : AddressingMode, (mode.resolve r bus).2.2 = bus
  implied : (implied.resolve r bus).1 = .none
  accumulator : (accumulator.resolve r bus).1 = .inline r.a
  immediate : (immediate.resolve r bus).1 = .inline (memory r.pc)
  /-- Page zero is indexed modulo its size. -/
  zeroPage : (zeroPage.resolve r bus).1.LiesAt (r.byteOperand memory % 0x100) False
  zeroPageX :
    (zeroPageX.resolve r bus).1.LiesAt ((r.byteOperand memory + r.x.toNat) % 0x100) False
  zeroPageY :
    (zeroPageY.resolve r bus).1.LiesAt ((r.byteOperand memory + r.y.toNat) % 0x100) False
  /-- The distance of a branch is signed. -/
  relative : (relative.resolve r bus).1.LiesAt
    (((r.pc + 1).toNat + Alu.signed (memory r.pc)) % 0x10000).toNat
    ((r.pc + 1).toNat / 0x100 ≠
      (((r.pc + 1).toNat + Alu.signed (memory r.pc)) % 0x10000).toNat / 0x100)
  absolute : (absolute.resolve r bus).1.LiesAt (r.wordOperand memory) False
  /-- The address space is indexed modulo its size; the page is left if adding to the low byte
  carries. -/
  absoluteX : (absoluteX.resolve r bus).1.LiesAt
    ((r.wordOperand memory + r.x.toNat) % 0x10000)
    (0x100 ≤ r.wordOperand memory % 0x100 + r.x.toNat)
  absoluteY : (absoluteY.resolve r bus).1.LiesAt
    ((r.wordOperand memory + r.y.toNat) % 0x10000)
    (0x100 ≤ r.wordOperand memory % 0x100 + r.y.toNat)
  /-- The high byte of a pointer lies in the page of the low one. -/
  indirect : (indirect.resolve r bus).1.LiesAt
    (wordAt memory (r.wordOperand memory)
      (r.wordOperand memory / 0x100 * 0x100 + (r.wordOperand memory + 1) % 0x100)) False
  /-- The index chooses the pointer, -/
  indexedIndirect : (indexedIndirect.resolve r bus).1.LiesAt
    (wordAt memory ((r.byteOperand memory + r.x.toNat) % 0x100)
      ((r.byteOperand memory + r.x.toNat + 1) % 0x100)) False
  /-- or it is added to what the pointer holds. -/
  indirectIndexed : (indirectIndexed.resolve r bus).1.LiesAt
    ((wordAt memory (r.byteOperand memory) ((r.byteOperand memory + 1) % 0x100) + r.y.toNat) %
      0x10000)
    (0x100 ≤ wordAt memory (r.byteOperand memory) ((r.byteOperand memory + 1) % 0x100) % 0x100 +
      r.y.toNat)

/-- Every mode finds its operand by its own rule, wherever the program counter and the index
registers are. -/
theorem findsOperands (r : Registers) {bus : B} {memory : UInt16 → UInt8}
    (h : ReadsPurely bus memory) : r.FindsOperands bus memory where
  registers mode := mode.resolve_registers r bus
  length code := by
    rw [Opcode.resolve_registers]
    show r.pc + UInt16.ofNat (Opcode.ofByte code).bytes - r.pc = _
    grind
  unchanged mode := h.resolve mode r
  implied := rfl
  accumulator := rfl
  immediate := by
    rw [resolve, h.fetchByte]
  zeroPage := by
    have hlt := (memory r.pc).toNat_lt
    rw [resolve, h.fetchByte, byteOperand_eq, Nat.mod_eq_of_lt hlt]
    exact Operand.liesAt_memory (UInt8.toNat_toUInt16 _)
  zeroPageX := by
    rw [resolve, h.fetchByte, byteOperand_eq, ← UInt8.toNat_add]
    exact Operand.liesAt_memory (UInt8.toNat_toUInt16 _)
  zeroPageY := by
    rw [resolve, h.fetchByte, byteOperand_eq, ← UInt8.toNat_add]
    exact Operand.liesAt_memory (UInt8.toNat_toUInt16 _)
  relative := by
    have hbranch := Operand.liesAt_branch r bus
    rwa [h] at hbranch
  absolute := by
    rw [resolve, ← h.toNat_fetchWord]
    exact Operand.liesAt_memory rfl
  absoluteX := by
    have hindexed := Operand.liesAt_indexed (r.fetchWord bus).1 r.x
    rwa [h.toNat_fetchWord] at hindexed
  absoluteY := by
    have hindexed := Operand.liesAt_indexed (r.fetchWord bus).1 r.y
    rwa [h.toNat_fetchWord] at hindexed
  indirect := by
    have hpointer := h.toNat_readPointer (r.fetchWord bus).1
    rw [h.toNat_fetchWord, h.fetchWord] at hpointer
    rw [resolve, h.fetchWord]
    exact Operand.liesAt_memory hpointer
  indexedIndirect := by
    have hpointer := h.toNat_readPointer_zeroPage (memory r.pc + r.x)
    rw [UInt8.toNat_add, ← byteOperand_eq, Nat.mod_add_mod] at hpointer
    rw [resolve, h.fetchByte]
    exact Operand.liesAt_memory hpointer
  indirectIndexed := by
    have hpointer := h.toNat_readPointer_zeroPage (memory r.pc)
    have hindexed := Operand.liesAt_indexed (readPointer bus (memory r.pc).toUInt16).1 r.y
    rw [hpointer, ← byteOperand_eq] at hindexed
    rw [resolve, h.fetchByte]
    exact hindexed

end Registers

/-! ## A memory and nothing else -/

/-- A bus with a cell at every address and no device. -/
structure PlainMemory where
  cell : UInt16 → UInt8

namespace PlainMemory

instance : SystemBus PlainMemory where
  read memory address := (memory.cell address, memory)
  write memory address value :=
    ⟨fun other => if other = address then value else memory.cell other⟩
  clock memory _ := memory
  takeNmi memory := (false, memory)
  irqLine _ := false
  takeDmaRequest memory := (none, memory)
  writeOam memory _ := memory

theorem readsPurely (memory : PlainMemory) : ReadsPurely memory memory.cell := fun _ => rfl

/-- In each cell the low byte of its address. -/
def numbered : PlainMemory := ⟨Word.low⟩

/-- Registers with the program counter at the end of the address space. -/
def lastCell : Registers := { Registers.powerOn with x := 0x80, y := 0xFF, pc := 0xFFFF }

/-- At the end of the address space, the operand goes on at its beginning. -/
theorem findsOperands_numbered :
    ReadsPurely numbered numbered.cell ∧ lastCell.FindsOperands numbered numbered.cell ∧
      AddressingMode.absoluteY.resolve lastCell numbered =
        (.memory 0x01FE true, { lastCell with pc := 1 }, numbered) :=
  ⟨numbered.readsPurely, lastCell.findsOperands numbered.readsPurely, rfl⟩

end PlainMemory

end Famicom
