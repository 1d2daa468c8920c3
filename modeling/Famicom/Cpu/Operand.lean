import Famicom.Cpu.Registers
import Famicom.Cpu.SystemBus

/-!
# Addressing modes and operands

An addressing mode says how the bytes after an opcode name an operand. `AddressingMode.resolve`
reads those bytes and any pointer that they name, and leaves the program counter behind the
instruction.
-/

namespace Famicom

open SystemBus

/-- The ways in which an instruction names its operand. -/
inductive AddressingMode where
  /-- No operand. -/
  | implied
  /-- The accumulator. -/
  | accumulator
  /-- The byte after the opcode. -/
  | immediate
  /-- A cell of page zero. -/
  | zeroPage
  /-- A cell of page zero, indexed by X within the page. -/
  | zeroPageX
  /-- A cell of page zero, indexed by Y within the page. -/
  | zeroPageY
  /-- A signed distance from the next instruction. -/
  | relative
  /-- A full address. -/
  | absolute
  /-- A full address, indexed by X. -/
  | absoluteX
  /-- A full address, indexed by Y. -/
  | absoluteY
  /-- The address of a pointer. -/
  | indirect
  /-- A pointer of page zero, chosen by X. -/
  | indexedIndirect
  /-- A pointer of page zero whose target is indexed by Y. -/
  | indirectIndexed
  deriving DecidableEq, Repr, Inhabited

/-- The length of an instruction, opcode included. -/
def AddressingMode.bytes : AddressingMode → Nat
  | .implied | .accumulator => 1
  | .absolute | .absoluteX | .absoluteY | .indirect => 3
  | .immediate | .zeroPage | .zeroPageX | .zeroPageY | .relative | .indexedIndirect
  | .indirectIndexed => 2

/-- A resolved operand. -/
inductive Operand where
  /-- There is none. -/
  | none
  /-- A value that is already in the processor. -/
  | inline (value : UInt8)
  /-- A memory cell or a jump target. `crossed` tells whether indexing, or a branch, has left the
  page it started from. -/
  | memory (address : UInt16) (crossed : Bool)
  deriving DecidableEq, Repr

namespace Operand

/-- The effective address; zero where there is none. -/
@[inline] def address : Operand → UInt16
  | .memory address _ => address
  | .none | .inline _ => 0

/-- Whether another page has been reached. -/
@[inline] def crossed : Operand → Bool
  | .memory _ crossed => crossed
  | .none | .inline _ => false

/-- The value that needs no memory access. -/
@[inline] def value? : Operand → Option UInt8
  | .inline value => some value
  | .none | .memory .. => Option.none

/-- The byte that the operand stands for; reads memory only if it lies there. -/
@[inline] def load {B : Type} [SystemBus B] (operand : Operand) (bus : B) : UInt8 × B :=
  match operand with
  | .none => (0, bus)
  | .inline value => (value, bus)
  | .memory address _ => read bus address

/-- The cell `index` bytes above `base`. -/
@[inline] def indexed (base : UInt16) (index : UInt8) : Operand :=
  let address := base + index.toUInt16
  .memory address (Word.high base != Word.high address)

/-- The target of a branch: `offset` is a signed distance from `next`. -/
@[inline] def branchTarget (next : UInt16) (offset : UInt8) : Operand :=
  let distance := if offset < 0x80 then offset.toUInt16 else offset.toUInt16 + 0xFF00
  let target := next + distance
  .memory target (Word.high next != Word.high target)

end Operand

variable {B : Type} [SystemBus B]

namespace Registers

/-- Read the byte at the program counter and step over it. -/
def fetchByte (r : Registers) (bus : B) : UInt8 × Registers × B :=
  let (value, bus) := read bus r.pc
  (value, { r with pc := r.pc + 1 }, bus)

/-- Read the word at the program counter and step over it. -/
def fetchWord (r : Registers) (bus : B) : UInt16 × Registers × B :=
  let (lo, r, bus) := r.fetchByte bus
  let (hi, r, bus) := r.fetchByte bus
  (Word.ofBytes lo hi, r, bus)

end Registers

/-- Read the pointer at `low`; its high byte comes from the next cell of the same page. -/
def readPointer (bus : B) (low : UInt16) : UInt16 × B :=
  let next := Word.ofBytes (Word.low low + 1) (Word.high low)
  let (lo, bus) := read bus low
  let (hi, bus) := read bus next
  (Word.ofBytes lo hi, bus)

/-- Resolve the operand whose bytes begin at the program counter. -/
def AddressingMode.resolve (mode : AddressingMode) (r : Registers) (bus : B) :
    Operand × Registers × B :=
  match mode with
  | .implied => (.none, r, bus)
  | .accumulator => (.inline r.a, r, bus)
  | .immediate =>
    let (value, r, bus) := r.fetchByte bus
    (.inline value, r, bus)
  | .zeroPage =>
    let (base, r, bus) := r.fetchByte bus
    (.memory base.toUInt16 false, r, bus)
  | .zeroPageX =>
    let (base, r, bus) := r.fetchByte bus
    (.memory (base + r.x).toUInt16 false, r, bus)
  | .zeroPageY =>
    let (base, r, bus) := r.fetchByte bus
    (.memory (base + r.y).toUInt16 false, r, bus)
  | .relative =>
    let (offset, r, bus) := r.fetchByte bus
    (.branchTarget r.pc offset, r, bus)
  | .absolute =>
    let (address, r, bus) := r.fetchWord bus
    (.memory address false, r, bus)
  | .absoluteX =>
    let (base, r, bus) := r.fetchWord bus
    (.indexed base r.x, r, bus)
  | .absoluteY =>
    let (base, r, bus) := r.fetchWord bus
    (.indexed base r.y, r, bus)
  | .indirect =>
    let (pointer, r, bus) := r.fetchWord bus
    let (address, bus) := readPointer bus pointer
    (.memory address false, r, bus)
  | .indexedIndirect =>
    let (base, r, bus) := r.fetchByte bus
    let (address, bus) := readPointer bus (base + r.x).toUInt16
    (.memory address false, r, bus)
  | .indirectIndexed =>
    let (pointer, r, bus) := r.fetchByte bus
    let (base, bus) := readPointer bus pointer.toUInt16
    (.indexed base r.y, r, bus)

end Famicom
