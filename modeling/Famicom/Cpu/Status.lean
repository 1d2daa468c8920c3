import Famicom.Byte

/-!
# Processor status

The status register is eight named flags. Programs see it as a byte (`Status.toByte`) on the
stack only, and `ofByte_toByte` and `toByte_ofByte` say that the byte holds the whole register.
-/

namespace Famicom

/-- The status register, from bit 0 to bit 7. -/
structure Status where
  carry : Bool
  zero : Bool
  interruptDisable : Bool
  /-- Kept, but without effect: this processor has no decimal arithmetic. -/
  decimal : Bool
  /-- Tells a software interrupt from a hardware one in the pushed copy. -/
  breakFlag : Bool
  /-- Has no function and is always pushed as one. -/
  unused : Bool
  overflow : Bool
  negative : Bool
  deriving DecidableEq, Repr, Inhabited

namespace Status

/-- The register as a byte. -/
def toByte (p : Status) : UInt8 :=
  Byte.ofBits p.carry p.zero p.interruptDisable p.decimal p.breakFlag p.unused p.overflow
    p.negative

/-- The register that a byte describes. -/
def ofByte (b : UInt8) : Status where
  carry := Byte.bit b 0
  zero := Byte.bit b 1
  interruptDisable := Byte.bit b 2
  decimal := Byte.bit b 3
  breakFlag := Byte.bit b 4
  unused := Byte.bit b 5
  overflow := Byte.bit b 6
  negative := Byte.bit b 7

@[simp] theorem toByte_ofByte (b : UInt8) : (ofByte b).toByte = b := Byte.ofBits_bit b

@[simp] theorem ofByte_toByte : ∀ p : Status, ofByte p.toByte = p := by
  have h : ∀ c z i d b u v n : Bool, ofByte (toByte ⟨c, z, i, d, b, u, v, n⟩) =
      ⟨c, z, i, d, b, u, v, n⟩ := by decide +kernel
  exact fun ⟨c, z, i, d, b, u, v, n⟩ => h c z i d b u v n

/-- The register after power-on: interrupts are disabled, and both bits without a flip-flop of
their own read as one. -/
def powerOn : Status := ofByte 0x34

/-- Zero and negative describe a result. -/
@[inline] def ofResult (p : Status) (result : UInt8) : Status :=
  { p with zero := result == 0, negative := 0x80 ≤ result }

/-- The copy that goes to the stack: the unused bit is one, and the break flag tells who pushed. -/
@[inline] def pushed (p : Status) (software : Bool) : UInt8 :=
  { p with breakFlag := software, unused := true : Status }.toByte

/-- The register after a pull: the break flag is dropped, the unused bit stays one. -/
@[inline] def pulled (b : UInt8) : Status :=
  { ofByte b with breakFlag := false, unused := true }

/-- Whether some flag selected by `mask` is set. -/
def test (p : Status) (mask : UInt8) : Bool := p.toByte &&& mask != 0

/-- Every flag selected by `mask` takes one value. -/
def assign (p : Status) (mask : UInt8) (value : Bool) : Status :=
  ofByte (if value then p.toByte ||| mask else p.toByte &&& ~~~mask)

end Status

end Famicom
