import Famicom.Cpu.Status

/-!
# Registers

What an instruction computes with: accumulator, two index registers, stack pointer, program
counter and status. Cycle counters are not among them; no instruction can see those.
-/

namespace Famicom

/-- The registers that a program can observe. -/
structure Registers where
  a : UInt8
  x : UInt8
  y : UInt8
  sp : UInt8
  pc : UInt16
  p : Status
  deriving DecidableEq, Repr, Inhabited

namespace Registers

/-- The registers at power-on, before the reset vector has been read. -/
def powerOn : Registers where
  a := 0
  x := 0
  y := 0
  sp := 0xFD
  pc := 0
  p := .powerOn

/-- The accumulator takes a result, and the flags describe it. -/
@[inline] def setA (r : Registers) (v : UInt8) : Registers := { r with a := v, p := r.p.ofResult v }

/-- The X register takes a result, and the flags describe it. -/
@[inline] def setX (r : Registers) (v : UInt8) : Registers := { r with x := v, p := r.p.ofResult v }

/-- The Y register takes a result, and the flags describe it. -/
@[inline] def setY (r : Registers) (v : UInt8) : Registers := { r with y := v, p := r.p.ofResult v }

end Registers

end Famicom
