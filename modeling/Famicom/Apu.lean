/-!
# The sound unit

Sound is made outside the console. The console clocks the unit with the cycles that have passed,
routes its registers and watches its interrupt line. `SilentApu` keeps what it is told and makes
no sound.
-/

namespace Famicom

/-- What the console asks of a sound unit. -/
class Apu (A : Type) where
  /-- Advance by some processor cycles. -/
  clock : A → Nat → A
  /-- Read a register, named by its address on the processor's bus. -/
  readRegister : A → UInt16 → UInt8 × A
  /-- Write a register. -/
  writeRegister : A → UInt16 → UInt8 → A
  /-- The level of the interrupt line. -/
  irqPending : A → Bool

/-- A sound unit without sound. -/
structure SilentApu where
  /-- Cycles passed, in a counter of 64 bits. -/
  cycles : UInt64
  /-- The last byte written to each register from `$4000`. -/
  registers : Vector UInt8 0x18
  deriving DecidableEq

namespace SilentApu

/-- A unit that has not been used. -/
def new : SilentApu := ⟨0, Vector.replicate 0x18 0⟩

/-- The number of the register at an address. -/
def register? (address : UInt16) : Option (Fin 0x18) :=
  if h : 0x4000 ≤ address.toNat ∧ address.toNat < 0x4018 then
    some ⟨address.toNat - 0x4000, by omega⟩
  else none

/-- The last byte written to an address, if it is a register's. -/
def lastWrite (unit : SilentApu) (address : UInt16) : Option UInt8 :=
  (register? address).map unit.registers.get

end SilentApu

instance : Apu SilentApu where
  clock unit count := { unit with cycles := unit.cycles + UInt64.ofNat count }
  readRegister unit _ := (0, unit)
  writeRegister unit address value :=
    match SilentApu.register? address with
    | some i => { unit with registers := unit.registers.set i value }
    | none => unit
  irqPending _ := false

end Famicom
