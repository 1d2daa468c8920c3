/-!
# Scroll addresses

The picture unit walks over four nametables with one register of 15 bits: the column and row of a
tile, the nametable across and down, and the line within the tile. `nextColumn` and `nextRow` are
the unit's own steps, the `with` functions set the fields that a program writes. All of them are
said in terms of the fields; `ofFields` packs those into a word.
-/

namespace Famicom

/-- An address of the picture unit, seen as a place in the scrolled picture. -/
abbrev VramAddress := UInt16

namespace VramAddress

/-- The tile column within a nametable. -/
@[inline] def coarseX (v : VramAddress) : UInt16 := v % 32

/-- The tile row within a nametable. -/
@[inline] def coarseY (v : VramAddress) : UInt16 := v / 32 % 32

/-- The nametable across: 0 or 1. -/
@[inline] def nametableX (v : VramAddress) : UInt16 := v / 0x400 % 2

/-- The nametable down: 0 or 1. -/
@[inline] def nametableY (v : VramAddress) : UInt16 := v / 0x800 % 2

/-- The line within a tile. -/
@[inline] def fineY (v : VramAddress) : UInt16 := v / 0x1000 % 8

/-- The address with the given fields. -/
@[inline] def ofFields (fineY nametableY nametableX coarseY coarseX : UInt16) : VramAddress :=
  0x1000 * fineY + 0x800 * nametableY + 0x400 * nametableX + 32 * coarseY + coarseX

/-- One tile to the right; beyond the last column lies the neighbouring nametable. -/
def nextColumn (v : VramAddress) : VramAddress :=
  if v.coarseX = 31 then ofFields v.fineY v.nametableY (1 - v.nametableX) v.coarseY 0
  else v + 1

/-- One line down; below row 29 lies the neighbouring nametable, below row 31 the same again. -/
def nextRow (v : VramAddress) : VramAddress :=
  if v.fineY ≠ 7 then v + 0x1000
  else if v.coarseY = 29 then ofFields 0 (1 - v.nametableY) v.nametableX 0 v.coarseX
  else if v.coarseY = 31 then ofFields 0 v.nametableY v.nametableX 0 v.coarseX
  else ofFields 0 v.nametableY v.nametableX (v.coarseY + 1) v.coarseX

/-- The horizontal fields of another address. -/
def withColumnOf (v t : VramAddress) : VramAddress :=
  ofFields v.fineY v.nametableY t.nametableX v.coarseY t.coarseX

/-- The vertical fields of another address. -/
def withRowOf (v t : VramAddress) : VramAddress :=
  ofFields t.fineY t.nametableY v.nametableX t.coarseY v.coarseX

/-- Choose a nametable by two bits. -/
def withNametable (v : VramAddress) (bits : UInt8) : VramAddress :=
  ofFields v.fineY (bits / 2 % 2).toUInt16 (bits % 2).toUInt16 v.coarseY v.coarseX

/-- Scroll to a pixel column; its place within the tile is not part of the address. -/
def withScrollX (v : VramAddress) (x : UInt8) : VramAddress :=
  ofFields v.fineY v.nametableY v.nametableX v.coarseY (x / 8).toUInt16

/-- Scroll to a pixel line. -/
def withScrollY (v : VramAddress) (y : UInt8) : VramAddress :=
  ofFields (y % 8).toUInt16 v.nametableY v.nametableX (y / 8).toUInt16 v.coarseX

/-- Where the number of the tile at this address lies. -/
@[inline] def tileAddress (v : VramAddress) : UInt16 := 0x2000 + v % 0x1000

/-- Where the palettes of the four by four tiles around this address lie. -/
@[inline] def attributeAddress (v : VramAddress) : UInt16 :=
  0x23C0 + 0x800 * v.nametableY + 0x400 * v.nametableX + 8 * (v.coarseY / 4) + v.coarseX / 4

/-- The palette of the tile at this address among four that share an attribute byte. -/
@[inline] def paletteOf (v : VramAddress) (palettes : UInt8) : UInt8 :=
  palettes >>> (4 * (v.coarseY / 2 % 2) + 2 * (v.coarseX / 2 % 2)).toUInt8 % 4

end VramAddress

end Famicom
