import Famicom.Ppu.Vram

/-!
# Background tiles

A tile is fetched in four reads: its number, the palettes of its neighbourhood, and the two planes
of one of its lines.
-/

namespace Famicom

namespace Ppu

variable {C : Type} [Cartridge C]

/-- Fetch the tile at the current address behind the one that was fetched last. -/
def fetchTile (ppu : Ppu) (cartridge : C) : Ppu × C :=
  let (tile, cartridge) := ppu.readVram cartridge ppu.v.tileAddress
  let (palettes, cartridge) := ppu.readVram cartridge ppu.v.attributeAddress
  let plane := ppu.control.backgroundTable + 16 * tile.toUInt16 + ppu.v.fineY
  let (plane0, cartridge) := ppu.readVram cartridge plane
  let (plane1, cartridge) := ppu.readVram cartridge (plane + 8)
  let line := TileLine.ofPlanes plane0 plane1 (ppu.v.paletteOf palettes)
  ({ ppu with background := ppu.background.shift line }, cartridge)

/-- Fetch the tile at the current address and move to the next column. -/
def fetchColumn (ppu : Ppu) (cartridge : C) : Ppu × C :=
  let (ppu, cartridge) := ppu.fetchTile cartridge
  (ppu.nextColumn, cartridge)

end Ppu

end Famicom
