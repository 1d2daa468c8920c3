import Famicom.Memory
import Famicom.Ppu.Control
import Famicom.Ppu.Tile
import Famicom.Ppu.VramAddress
import Famicom.Video.Frame
import Famicom.Video.Standard

/-!
# The picture unit

The state of the picture unit. It has no clock of its own: the console tells it when to fetch a
tile, to draw eight pixels, to look for the sprites of the next line. The cartridge is handed to
each operation that may reach it.
-/

namespace Famicom

/-- An opaque sprite pixel. -/
structure SpriteDot where
  /-- The palette entry, from 16 up. -/
  index : UInt8
  /-- Whether the background hides it. -/
  behind : Bool
  /-- Whether it belongs to the first sprite of sprite memory. -/
  first : Bool
  deriving DecidableEq, Repr

/-- The sprite pixels of a line. -/
abbrev SpriteLine := Vector (Option SpriteDot) 256

/-- A line without sprites. -/
def SpriteLine.empty : SpriteLine := Vector.replicate 256 none

/-- What the last search for sprites has found. -/
structure SpriteSearch where
  /-- How many sprites have been copied. -/
  count : Fin 9
  /-- Whether the first sprite of sprite memory is one of them. -/
  first : Bool
  /-- The line that was searched for. -/
  line : UInt16
  /-- Where in sprite memory the search stopped. -/
  stoppedAt : UInt8
  deriving DecidableEq, Repr

/-- The state before the first search. -/
def SpriteSearch.initial : SpriteSearch := ⟨0, false, 0, 0⟩

/-- Forget the sprites that were found. -/
def SpriteSearch.forget (search : SpriteSearch) : SpriteSearch :=
  { search with count := 0, first := false }

/-- The picture unit. -/
structure Ppu where
  control : Control
  mask : Mask
  /-- Whether the unit renders, as it was noted at the last write at `$2001` or at the end of the
  last vertical blanking. -/
  rendering : Bool
  status : PpuStatus
  /-- The sprite memory address at `$2003`. -/
  oamAddress : UInt8
  /-- The current address. -/
  v : VramAddress
  /-- The address at which the next picture begins. -/
  t : VramAddress
  /-- The pixel column within a tile at which lines begin. -/
  fineX : Fin 8
  /-- Whether the next write at `$2005` or `$2006` is the second of a pair. -/
  secondWrite : Bool
  /-- The byte that the next read at `$2007` returns. -/
  readBuffer : UInt8
  /-- The last byte on the data lines, which registers without a value of their own return. -/
  ioLatch : UInt8
  /-- Whether an interrupt has been raised and not been taken. -/
  nmiPending : Bool
  standard : VideoStandard
  /-- The console's two nametables. -/
  ciram : Memory 0x800
  palette : Memory 32
  /-- Sixty-four sprites of four bytes. -/
  oam : Memory 256
  /-- The sprites found for the next line. -/
  secondaryOam : Memory 32
  background : TileWindow
  search : SpriteSearch
  spriteLine : SpriteLine
  frame : Frame

namespace Ppu

/-- Secondary memory in which no sprite was found. -/
def noSprites : Memory 32 := Memory.filled 32 0xFF

/-- The picture unit after power-on. -/
def powerOn (standard : VideoStandard) : Ppu where
  control := ⟨0⟩
  mask := ⟨0⟩
  rendering := false
  status := .clear
  oamAddress := 0
  v := 0
  t := 0
  fineX := 0
  secondWrite := false
  readBuffer := 0
  ioLatch := 0
  nmiPending := false
  standard := standard
  ciram := Memory.filled 0x800 0
  palette := Memory.filled 32 0
  oam := Memory.filled 256 0
  secondaryOam := noSprites
  background := .blank
  search := .initial
  spriteLine := .empty
  frame := .black

/-- The reset button: what steers the unit is cleared, memories and flags are kept. -/
def reset (ppu : Ppu) : Ppu :=
  { ppu with
    control := ⟨0⟩
    mask := ⟨0⟩
    rendering := false
    secondWrite := false
    readBuffer := 0
    fineX := 0
    t := 0
    nmiPending := false }

/-- Vertical blanking begins: the flag is set, and the processor is interrupted if it wants to. -/
def beginVblank (ppu : Ppu) : Ppu :=
  { ppu with
    status.vblank := true
    nmiPending := ppu.nmiPending || ppu.control.nmiEnabled }

/-- Vertical blanking ends, and the flags of the picture are cleared with it. Whether the unit
renders is taken from the mask for the coming picture. -/
def endVblank (ppu : Ppu) : Ppu :=
  { ppu with status := .clear, rendering := ppu.mask.rendering }

/-- Take the interrupt that is pending, if there is one. -/
def takeNmi (ppu : Ppu) : Bool × Ppu := (ppu.nmiPending, { ppu with nmiPending := false })

/-- Store a byte in sprite memory and step on. -/
def writeOam (ppu : Ppu) (value : UInt8) : Ppu :=
  { ppu with
    oam := ppu.oam.store ppu.oamAddress.toNat value
    oamAddress := ppu.oamAddress + 1 }

/-- Move to the next tile column. -/
def nextColumn (ppu : Ppu) : Ppu := { ppu with v := ppu.v.nextColumn }

/-- Move to the next line. -/
def nextRow (ppu : Ppu) : Ppu := { ppu with v := ppu.v.nextRow }

/-- Return to the column at which lines begin. -/
def reloadColumn (ppu : Ppu) : Ppu := { ppu with v := ppu.v.withColumnOf ppu.t }

/-- Return to the line at which pictures begin. -/
def reloadRow (ppu : Ppu) : Ppu := { ppu with v := ppu.v.withRowOf ppu.t }

end Ppu

end Famicom
