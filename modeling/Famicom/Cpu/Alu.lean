import Famicom.Cpu.Status

/-!
# Arithmetic

Binary arithmetic on bytes and the flags that it sets. Every function takes the flags and returns
its result with the new flags. Subtraction is addition of the complement, so carry means "no
borrow"; the decimal flag is never consulted.
-/

namespace Famicom.Alu

/-- The value of a byte in two's complement. -/
def signed (v : UInt8) : Int := if v < 0x80 then v.toNat else (v.toNat : Int) - 0x100

/-- A raw result taken to a byte: carry tells whether it was too large for one. -/
@[inline] def wrap (raw : Nat) (p : Status) : UInt8 × Status :=
  let result := UInt8.ofNat raw
  (result, { p.ofResult result with carry := decide (0xFF < raw) })

/-- The sum of two bytes and the carry. Overflow: the operands have one sign and the result the
other. -/
def add (a m : UInt8) (p : Status) : UInt8 × Status :=
  let (result, p) := wrap (a.toNat + m.toNat + p.carry.toNat) p
  let overflow := (decide (a < 0x80) == decide (m < 0x80)) &&
    decide (a < 0x80) != decide (result < 0x80)
  (result, { p with overflow })

/-- The difference of two bytes less the borrow, which is the absence of carry. -/
def subtract (a m : UInt8) (p : Status) : UInt8 × Status := add a (0xFF - m) p

/-- The difference of two bytes without borrow; overflow is left alone. -/
def difference (a m : UInt8) (p : Status) : UInt8 × Status :=
  wrap (a.toNat + (0xFF - m).toNat + 1) p

/-- The flags after comparing a register with an operand. -/
def compare (register m : UInt8) (p : Status) : Status := (difference register m p).2

/-- One more. -/
def increment (v : UInt8) (p : Status) : UInt8 × Status := (v + 1, p.ofResult (v + 1))

/-- One less. -/
def decrement (v : UInt8) (p : Status) : UInt8 × Status := (v - 1, p.ofResult (v - 1))

/-- All bits one place up; the top bit goes to carry. -/
def shiftLeft (v : UInt8) (p : Status) : UInt8 × Status := wrap (2 * v.toNat) p

/-- All bits one place up through carry. -/
def rotateLeft (v : UInt8) (p : Status) : UInt8 × Status := wrap (2 * v.toNat + p.carry.toNat) p

/-- All bits one place down; the lowest goes to carry. -/
def shiftRight (v : UInt8) (p : Status) : UInt8 × Status :=
  let result := v / 2
  (result, { p.ofResult result with carry := Byte.bit v 0 })

/-- All bits one place down through carry. -/
def rotateRight (v : UInt8) (p : Status) : UInt8 × Status :=
  let result := v / 2 + 0x80 * p.carry.toUInt8
  (result, { p.ofResult result with carry := Byte.bit v 0 })

/-- The flags of a bit test: zero from the masked operand, the other two copied from it. -/
def bitTest (a m : UInt8) (p : Status) : Status :=
  { p with zero := a &&& m == 0, overflow := Byte.bit m 6, negative := Byte.bit m 7 }

end Famicom.Alu
