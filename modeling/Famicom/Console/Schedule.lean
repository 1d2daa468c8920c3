import Famicom.Ppu.Background
import Famicom.Ppu.Composition
import Famicom.Ppu.Sprite
import Famicom.Time

/-!
# The schedule of a line

A line is 341 dots long, three to a processor cycle. The picture unit's work on a line is a list of
steps, each at the dot at which the hardware does it. Whether the unit renders is decided at the
head of the line: `Line.steps` is the schedule for either case.

| Dots                 | Work                                                     |
| -------------------- | -------------------------------------------------------- |
| 0                    | forget the sprites of the line before                    |
| 0, 8, ..., 248       | draw eight pixels, fetch a tile                          |
| 64                   | look for the sprites of the next line                    |
| 256                  | move to the next line                                    |
| 256, 264, ..., 312   | fetch a sprite                                           |
| 280, 304             | before the picture only: return to its first line        |
| 320, 328             | fetch the first two tiles of the next line               |
-/

namespace Famicom

/-- A line on which the picture unit works. -/
inductive Line where
  /-- A line of the picture. -/
  | visible (y : Fin 240)
  /-- The line before the picture. -/
  | preRender
  deriving DecidableEq, Repr

namespace Line

/-- The line on which nothing happens. -/
def postRender : Nat := 240

/-- The line on which vertical blanking begins. -/
def vblank : Nat := 241

/-- The number of a line within the frame. -/
def number : Line → Nat
  | visible y => y
  | preRender => 261

end Line

/-- A step of the picture unit. -/
inductive PpuStep where
  | clearSecondaryOam
  | searchSprites (line : Fin 240)
  | drawTile (line : Fin 240) (tile : Fin 32)
  | fetchColumn
  | nextRow
  | fetchSprite (slot : Fin 8)
  | reloadRow
  | clearSpriteLine
  deriving DecidableEq, Repr

/-- Perform a step. -/
def PpuStep.run {C : Type} [Cartridge C] (step : PpuStep) (ppu : Ppu) (cartridge : C) : Ppu × C :=
  match step with
  | clearSecondaryOam => (ppu.clearSecondaryOam, cartridge)
  | searchSprites line => (ppu.searchSprites (UInt16.ofNat line), cartridge)
  | drawTile line tile => (ppu.drawTile line tile, cartridge)
  | fetchColumn => ppu.fetchColumn cartridge
  | nextRow => (ppu.nextRow.reloadColumn, cartridge)
  | fetchSprite slot => ppu.fetchSprite cartridge slot
  | reloadRow => (ppu.reloadRow, cartridge)
  | clearSpriteLine => (ppu.clearSpriteLine, cartridge)

/-- A step and the dot at which it is due. -/
structure Event where
  dot : Nat
  step : PpuStep
  deriving DecidableEq, Repr

namespace Line

/-- The steps at a tile column. -/
def tileSteps (line : Line) (rendering : Bool) (tile : Fin 32) : List PpuStep :=
  let drawing :=
    match line with
    | visible y =>
      (if rendering ∧ tile.val = 8 then [.searchSprites y] else []) ++ [.drawTile y tile]
    | preRender => []
  drawing ++ (if rendering then [.fetchColumn] else [])

/-- The events over the tile columns. -/
def tileEvents (line : Line) (rendering : Bool) : List Event :=
  (List.finRange 32).flatMap fun tile =>
    (line.tileSteps rendering tile).map fun step => ⟨8 * tile, step⟩

/-- The events after the tile columns while the unit renders. -/
def closingEvents (line : Line) : List Event :=
  ⟨256, .nextRow⟩ ::
    (List.finRange 8).map (fun slot => ⟨256 + 8 * slot, .fetchSprite slot⟩) ++
    (match line with
      | visible _ => []
      | preRender => [⟨280, .reloadRow⟩, ⟨304, .reloadRow⟩]) ++
    [⟨320, .fetchColumn⟩, ⟨328, .fetchColumn⟩]

/-- The schedule of a line. Where the unit does not render, the next line has no sprites. -/
def events (line : Line) (rendering : Bool) : List Event :=
  ⟨0, .clearSecondaryOam⟩ :: line.tileEvents rendering ++
    (if rendering then line.closingEvents else [⟨248, .clearSpriteLine⟩])

end Line

namespace FrameTime

variable {T : Type} [Time T]

/-- The processor cycle, counted from the start of the frame, at which a dot is reached. -/
def ofDot (line dot : Nat) : T := Time.ratio (341 * line + dot) 3

/-- The processor cycles of a frame: 262 lines, half a dot of which is left out on average. -/
def frameCycles : T := Time.ratio 59561 2

end FrameTime

end Famicom
