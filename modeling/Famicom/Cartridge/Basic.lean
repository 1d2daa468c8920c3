import Famicom.Cartridge.Mirroring

/-!
# Cartridges

A cartridge answers on two buses, the processor's and the picture unit's, and wires the console's
nametable memory. Reads may change it, since boards latch state on them; every address is
answered with some byte.
-/

namespace Famicom

/-- What the console asks of a cartridge. -/
class Cartridge (C : Type) where
  /-- Read at an address from `$4020` for the processor. -/
  cpuRead : C → UInt16 → UInt8 × C
  /-- Write at an address from `$4020` for the processor. -/
  cpuWrite : C → UInt16 → UInt8 → C
  /-- Read at an address below `$3F00` for the picture unit. -/
  ppuRead : C → UInt16 → UInt8 × C
  /-- Write at an address below `$3F00` for the picture unit. -/
  ppuWrite : C → UInt16 → UInt8 → C
  /-- Whether the second nametable memory is selected at a nametable address. -/
  ciramA10 : C → UInt16 → Bool
  /-- Whether the console's nametable memory answers at an address; if not, the board does. -/
  ciramEnabled : C → UInt16 → Bool
  /-- The level of the interrupt line. -/
  irqPending : C → Bool

/-- An empty slot: reads give zero and writes are lost. -/
structure EmptySlot where
  deriving DecidableEq, Repr, Inhabited

instance : Cartridge EmptySlot where
  cpuRead slot _ := (0, slot)
  cpuWrite slot _ _ := slot
  ppuRead slot _ := (0, slot)
  ppuWrite slot _ _ := slot
  ciramA10 _ address := Mirroring.horizontal.ciramA10 address
  ciramEnabled _ _ := true
  irqPending _ := false

end Famicom
