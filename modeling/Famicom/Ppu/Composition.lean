import Famicom.Ppu.Vram

/-!
# Composition

A pixel is the backdrop, the background or a sprite. Each layer may be off, or hidden in the
leftmost columns; where both are opaque, the sprite says which is in front. The first sprite of
sprite memory reports where it meets the background.
-/

namespace Famicom

/-- The column of a pixel within a tile column. -/
@[inline] def tileColumn (tile : Fin 32) (i : Fin 8) : Fin 256 := ⟨8 * tile + i, by omega⟩

namespace Ppu

/-- Whether a layer shows at a column, given whether it is on at all and on the left. -/
@[inline] def layerShows (shown left : Bool) (x : Fin 256) : Bool := shown && (8 ≤ x.val || left)

/-- The background pixel at a column; zero where it is transparent or hidden. -/
def backgroundAt (ppu : Ppu) (tile : Fin 32) (i : Fin 8) : UInt8 :=
  if layerShows ppu.mask.showBackground ppu.mask.backgroundLeft (tileColumn tile i) then
    ppu.background.pixel ppu.fineX i
  else 0

/-- The sprite pixel at a column, where there is one that shows. -/
def spriteAt (ppu : Ppu) (x : Fin 256) : Option SpriteDot :=
  if layerShows ppu.mask.showSprites ppu.mask.spritesLeft x then ppu.spriteLine.get x else none

/-- The palette entry that a pixel shows. -/
def paletteEntry (background : UInt8) : Option SpriteDot → UInt8
  | some dot => if background = 0 ∨ !dot.behind then dot.index else background
  | none => background

/-- Whether the first sprite meets the background; the last column does not count. -/
def hitAt (ppu : Ppu) (tile : Fin 32) (i : Fin 8) : Bool :=
  match ppu.spriteAt (tileColumn tile i) with
  | some dot => dot.first && (tileColumn tile i).val != 255 && ppu.backgroundAt tile i != 0
  | none => false

/-- The emphasis of the picture. -/
def emphasis (ppu : Ppu) : UInt8 := ppu.standard.emphasis ppu.mask.emphasisBits

/-- The colour number of a pixel. -/
def colorAt (ppu : Ppu) (tile : Fin 32) (i : Fin 8) : UInt8 :=
  ppu.paletteColor (paletteEntry (ppu.backgroundAt tile i) (ppu.spriteAt (tileColumn tile i)))

/-- Draw the eight pixels of a tile column on a line. -/
def drawTile (ppu : Ppu) (line : Fin 240) (tile : Fin 32) : Ppu :=
  let emphasis := ppu.emphasis
  let hit := ppu.status.spriteZeroHit || (List.finRange 8).any (ppu.hitAt tile)
  let colors : Vector UInt8 8 := Vector.ofFn (ppu.colorAt tile)
  let draw (frame : Frame) (i : Fin 8) : Frame :=
    frame.setPixel (tileColumn tile i) line (colors.get i) emphasis
  { ppu with status.spriteZeroHit := hit, frame := Fin.foldl 8 draw ppu.frame }

/-- Draw a tile column where a host asks for it. A column beyond the screen is first missed on the
sprite line, if sprites show, and then on the screen. -/
def drawTile? (ppu : Ppu) (line tile : Nat) : Except VideoError Ppu :=
  if ht : tile < 32 then
    if hl : line < 240 then .ok (ppu.drawTile ⟨line, hl⟩ ⟨tile, ht⟩) else .error (.line line)
  else if ppu.mask.showSprites then .error .spriteLine
  else .error (.column (8 * tile))

end Ppu

end Famicom
