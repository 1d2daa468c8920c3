import Famicom.Memory

/-!
# Work RAM

Two kilobytes below `$0800`, repeated up to `$1FFF`. Page zero and the stack are part of it.
-/

namespace Famicom

/-- The processor's own memory. -/
abbrev WorkRam := Memory 0x800

namespace WorkRam

theorem size_pos : 0 < 0x800 := by decide

/-- Work RAM whose bytes all have one value. -/
def filled (value : UInt8) : WorkRam := Memory.filled 0x800 value size_pos

/-- Work RAM after power-on. -/
def cleared : WorkRam := filled 0

end WorkRam

end Famicom
