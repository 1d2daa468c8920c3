import Famicom.Ppu.Vram

/-!
# The registers of the picture unit

The eight registers at `$2000`, as the processor reads and writes them. Two of them take two
writes; the pair shares one toggle, which a read of the status resets. Whatever is read or written
stays on the data lines, and write-only registers read as that.
-/

namespace Famicom

namespace Ppu

variable {C : Type} [Cartridge C]

/-- Advance the address after an access at `$2007`; it has 15 bits. -/
def stepAddress (ppu : Ppu) : Ppu :=
  { ppu with v := (ppu.v + ppu.control.increment) % 0x8000 }

/-- Read the status: the flags above the data lines. It ends the blanking flag and the pair of
writes. -/
def readStatus (ppu : Ppu) : UInt8 × Ppu :=
  let value := ppu.status.toByte + ppu.ioLatch % 0x20
  (value, { ppu with status.vblank := false, secondWrite := false })

/-- Read at the current address. Memory comes one read late through a buffer. A palette entry comes
at once, below two bits of the data lines, and the buffer takes the byte that lies under it. -/
def readData (ppu : Ppu) (cartridge : C) : UInt8 × Ppu × C :=
  let address := ppu.v % 0x4000
  if 0x3F00 ≤ address then
    let (color, cartridge) := ppu.readVram cartridge address
    let (under, cartridge) := ppu.readVram cartridge (nametableAddress address)
    (0x40 * (ppu.ioLatch / 0x40) + color, { ppu with readBuffer := under }.stepAddress, cartridge)
  else
    let (next, cartridge) := ppu.readVram cartridge address
    (ppu.readBuffer, { ppu with readBuffer := next }.stepAddress, cartridge)

/-- Read a register; three bits of the address count. -/
def readRegister (ppu : Ppu) (cartridge : C) (address : UInt16) : UInt8 × Ppu × C :=
  let number := address % 8
  if number = 2 then
    let (value, ppu) := ppu.readStatus
    (value, { ppu with ioLatch := value }, cartridge)
  else if number = 4 then
    let value := ppu.oam.load ppu.oamAddress.toNat
    (value, { ppu with ioLatch := value }, cartridge)
  else if number = 7 then
    let (value, ppu, cartridge) := ppu.readData cartridge
    (value, { ppu with ioLatch := value }, cartridge)
  else (ppu.ioLatch, ppu, cartridge)

/-- Write the control register. Allowing interrupts during vertical blanking raises one. -/
def writeControl (ppu : Ppu) (value : UInt8) : Ppu :=
  let control : Control := ⟨value⟩
  let raised := !ppu.control.nmiEnabled && control.nmiEnabled && ppu.status.vblank
  { ppu with
    control
    t := ppu.t.withNametable value
    nmiPending := ppu.nmiPending || raised }

/-- Write the mask, which decides whether the unit renders. -/
def writeMask (ppu : Ppu) (value : UInt8) : Ppu :=
  { ppu with mask := ⟨value⟩, rendering := Mask.rendering ⟨value⟩ }

/-- Write the scroll position: first the column, then the line. -/
def writeScroll (ppu : Ppu) (value : UInt8) : Ppu :=
  if ppu.secondWrite then { ppu with t := ppu.t.withScrollY value, secondWrite := false }
  else
    { ppu with
      t := ppu.t.withScrollX value
      fineX := ⟨value.toNat % 8, Nat.mod_lt _ (by decide)⟩
      secondWrite := true }

/-- Write the address: first its upper six bits, then its lower eight, which take effect. -/
def writeAddress (ppu : Ppu) (value : UInt8) : Ppu :=
  if ppu.secondWrite then
    let t := Word.ofBytes value (Word.high ppu.t)
    { ppu with t, v := t, secondWrite := false }
  else { ppu with t := Word.ofBytes (Word.low ppu.t) (value % 0x40), secondWrite := true }

/-- Write at the current address. -/
def writeData (ppu : Ppu) (cartridge : C) (value : UInt8) : Ppu × C :=
  let address := ppu.v
  let (ppu, cartridge) := ppu.writeVram cartridge address value
  (ppu.stepAddress, cartridge)

/-- Write a register; three bits of the address count. -/
def writeRegister (ppu : Ppu) (cartridge : C) (address : UInt16) (value : UInt8) : Ppu × C :=
  let ppu := { ppu with ioLatch := value }
  let number := address % 8
  if number = 0 then (ppu.writeControl value, cartridge)
  else if number = 1 then (ppu.writeMask value, cartridge)
  else if number = 3 then ({ ppu with oamAddress := value }, cartridge)
  else if number = 4 then (ppu.writeOam value, cartridge)
  else if number = 5 then (ppu.writeScroll value, cartridge)
  else if number = 6 then (ppu.writeAddress value, cartridge)
  else if number = 7 then ppu.writeData cartridge value
  else (ppu, cartridge)

end Ppu

end Famicom
