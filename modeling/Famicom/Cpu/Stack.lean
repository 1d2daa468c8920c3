import Famicom.Cpu.Registers
import Famicom.Cpu.SystemBus

/-!
# The stack

The stack is the page at `$0100`, used as a ring: the pointer names the cell that the next push
fills, and it wraps within the page. Words are pushed high byte first, so that they lie in memory
low byte first.
-/

namespace Famicom

open SystemBus

variable {B : Type} [SystemBus B]

/-- The address of the cell that a stack pointer names. -/
@[inline] def stackAddress (sp : UInt8) : UInt16 := 0x100 + sp.toUInt16

namespace Registers

/-- Push a byte. -/
def push (r : Registers) (bus : B) (value : UInt8) : Registers × B :=
  ({ r with sp := r.sp - 1 }, write bus (stackAddress r.sp) value)

/-- Pull a byte. -/
def pull (r : Registers) (bus : B) : UInt8 × Registers × B :=
  let sp := r.sp + 1
  let (value, bus) := read bus (stackAddress sp)
  (value, { r with sp }, bus)

/-- Push a word. -/
def pushWord (r : Registers) (bus : B) (value : UInt16) : Registers × B :=
  let (r, bus) := r.push bus (Word.high value)
  r.push bus (Word.low value)

/-- Pull a word. -/
def pullWord (r : Registers) (bus : B) : UInt16 × Registers × B :=
  let (lo, r, bus) := r.pull bus
  let (hi, r, bus) := r.pull bus
  (Word.ofBytes lo hi, r, bus)

end Registers

end Famicom
