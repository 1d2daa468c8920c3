import Famicom.Cartridge.Basic
import Famicom.Ppu.Basic

/-!
# The picture unit's address space

Sixteen kilobytes: pattern tables on the cartridge, four nametables in the console's memory or on
the cartridge, and the palette. The range from `$3000` repeats the nametables, the palette repeats
every 32 bytes, and the first entry of each sprite palette is the one of the background palette.
-/

namespace Famicom

namespace Ppu

variable {C : Type} [Cartridge C]

/-- Where an address lies in the console's nametable memory. -/
@[inline] def ciramIndex (cartridge : C) (address : UInt16) : Nat :=
  (if Cartridge.ciramA10 cartridge address then 0x400 else 0) + (address % 0x400).toNat

/-- Where an address or a palette entry lies in palette memory. -/
@[inline] def paletteIndex (address : Nat) : Nat :=
  let i := address % 32
  if 16 ≤ i ∧ i % 4 = 0 then i - 16 else i

/-- The colour number of a palette entry, reduced to the grey column if the mask says so. -/
@[inline] def paletteColor (ppu : Ppu) (index : UInt8) : UInt8 :=
  let color := ppu.palette.load (paletteIndex index.toNat) % 0x40
  if ppu.mask.grayscale then color &&& 0x30 else color

/-- The nametable address that an address below the palette stands for. -/
@[inline] def nametableAddress (address : UInt16) : UInt16 := 0x2000 + address % 0x1000

/-- Read at an address, of which 14 bits count. -/
def readVram (ppu : Ppu) (cartridge : C) (address : UInt16) : UInt8 × C :=
  let address := address % 0x4000
  if address < 0x2000 then Cartridge.ppuRead cartridge address
  else if address < 0x3F00 then
    let address := nametableAddress address
    if Cartridge.ciramEnabled cartridge address then
      (ppu.ciram.load (ciramIndex cartridge address), cartridge)
    else Cartridge.ppuRead cartridge address
  else (ppu.paletteColor address.toUInt8, cartridge)

/-- Write at an address, of which 14 bits count. -/
def writeVram (ppu : Ppu) (cartridge : C) (address : UInt16) (value : UInt8) : Ppu × C :=
  let address := address % 0x4000
  if address < 0x2000 then (ppu, Cartridge.ppuWrite cartridge address value)
  else if address < 0x3F00 then
    let address := nametableAddress address
    if Cartridge.ciramEnabled cartridge address then
      ({ ppu with ciram := ppu.ciram.store (ciramIndex cartridge address) value }, cartridge)
    else (ppu, Cartridge.ppuWrite cartridge address value)
  else
    ({ ppu with palette := ppu.palette.store (paletteIndex address.toNat) (value % 0x40) },
      cartridge)

end Ppu

end Famicom
