import Famicom.Byte

/-!
# The processor's side of the bus

The processor knows the rest of the console only through `SystemBus`: reads and writes, which may
have side effects and therefore return the bus that they leave, the clock of the sound unit, the
two interrupt lines and the sprite-memory transfer. Any type with these operations will do, so
statements about the processor can be made for every console and every device on it.
-/

namespace Famicom

/-- What the processor can do to the rest of the console. -/
class SystemBus (B : Type) where
  /-- Read the byte at an address. -/
  read : B → UInt16 → UInt8 × B
  /-- Write a byte to an address. -/
  write : B → UInt16 → UInt8 → B
  /-- Let devices that run on the processor's clock advance by some cycles. -/
  clock : B → Nat → B
  /-- Take the pending non-maskable interrupt, if there is one. -/
  takeNmi : B → Bool × B
  /-- The level of the maskable interrupt line. -/
  irqLine : B → Bool
  /-- Take the page whose transfer to sprite memory has been requested, if there is one. -/
  takeDmaRequest : B → Option UInt8 × B
  /-- Store a byte at the current address of sprite memory. -/
  writeOam : B → UInt8 → B

namespace SystemBus

variable {B : Type} [SystemBus B]

/-- Read the word at an address, low byte first. -/
def readWord (bus : B) (addr : UInt16) : UInt16 × B :=
  let (lo, bus) := read bus addr
  let (hi, bus) := read bus (addr + 1)
  (Word.ofBytes lo hi, bus)

/-- Read one byte of a page and pass it to sprite memory. -/
def transferByte (page : UInt8) (bus : B) (offset : UInt8) : B :=
  let (value, bus) := read bus (Word.ofBytes offset page)
  writeOam bus value

/-- Copy the 256 bytes of a page to sprite memory, in order. -/
def transferPage (bus : B) (page : UInt8) : B :=
  Fin.foldl 256 (fun bus offset => transferByte page bus (UInt8.ofFin offset)) bus

end SystemBus

end Famicom
