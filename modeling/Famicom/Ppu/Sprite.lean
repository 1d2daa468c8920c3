import Famicom.Ppu.Vram

/-!
# Sprites

While a line is drawn, the sprites of the next one are looked for: `searchSprites` copies the first
eight that are in range, and `fetchSprite` draws them one by one into the sprite line, where the
earlier wins. A ninth sprite sets the overflow flag, but the unit looks for it along a diagonal of
sprite memory (`overflowWalk`), so that it takes other bytes for vertical positions.
-/

namespace Famicom

namespace Sprite

/-- Whether a sprite at line `y` reaches a line. -/
@[inline] def inRange (height : Nat) (line : UInt16) (y : UInt8) : Bool :=
  y.toNat ≤ line.toNat && line.toNat < y.toNat + height

/-- The sprites in range, in the order of sprite memory. -/
def candidates (oam : Memory 256) (height : Nat) (line : UInt16) : List Nat :=
  (List.range 64).filter fun n => inRange height line (oam.load (4 * n))

/-- Look for one more sprite from sprite `n`, comparing byte `m` of each; `m` moves on with `n`.
Returns whether one was found, and where the search stopped. -/
def overflowWalk (oam : Memory 256) (height : Nat) (line : UInt16) (n m : Nat) : Bool × UInt8 :=
  if _ : n < 64 then
    if inRange height line (oam.load (4 * n + m)) then (true, UInt8.ofNat (4 * n + m))
    else overflowWalk oam height line (n + 1) ((m + 1) % 4)
  else (false, UInt8.ofNat (4 * n + m))
termination_by 64 - n

/-- Copy a sprite to a slot of the secondary memory. -/
def copyTo (oam : Memory 256) (secondary : Memory 32) (slot n : Nat) : Memory 32 :=
  Fin.foldl 4 (fun secondary k => secondary.store (4 * slot + k) (oam.load (4 * n + k))) secondary

/-- Copy sprites to consecutive slots of the secondary memory. -/
def copyAll (oam : Memory 256) (secondary : Memory 32) (slot : Nat) : List Nat → Memory 32
  | [] => secondary
  | n :: rest => copyAll oam (copyTo oam secondary slot n) (slot + 1) rest

/-- Where the planes of a sprite line lie. A tall sprite chooses its own pattern table. -/
def planeAddress (control : Control) (tile : UInt8) (row : UInt16) : UInt16 :=
  let tile := tile.toUInt16
  if control.tallSprites then
    let half := if 8 ≤ row then 1 else 0
    0x1000 * (tile % 2) + 16 * (2 * (tile / 2) + half) + row % 8
  else control.spriteTable + 16 * tile + row

end Sprite

namespace SpriteLine

/-- Draw a pixel of a sprite unless it is transparent, off the line, or taken by an earlier
sprite. -/
@[inline] def draw (dots : SpriteLine) (x : Nat) (pixel : UInt8) (behind first : Bool) :
    SpriteLine :=
  if h : x < 256 then
    if pixel != 0 && dots[x].isNone then dots.set x (some ⟨0x10 + pixel, behind, first⟩) else dots
  else dots

end SpriteLine

namespace Ppu

variable {C : Type} [Cartridge C]

/-- Forget the sprites that were found, and empty the secondary memory. -/
def clearSecondaryOam (ppu : Ppu) : Ppu :=
  { ppu with secondaryOam := noSprites, search := ppu.search.forget }

/-- Remove all sprites from the sprite line. -/
def clearSpriteLine (ppu : Ppu) : Ppu := { ppu with spriteLine := .empty }

/-- Look for the sprites that reach a line. -/
def searchSprites (ppu : Ppu) (line : UInt16) : Ppu :=
  let height := ppu.control.spriteHeight
  let found := Sprite.candidates ppu.oam height line
  let chosen := found.take 8
  let (overflow, stoppedAt) :=
    match found[7]? with
    | some eighth => Sprite.overflowWalk ppu.oam height line (eighth + 1) 0
    | none => (false, 0)
  { ppu with
    secondaryOam := Sprite.copyAll ppu.oam ppu.secondaryOam 0 chosen
    status.overflow := ppu.status.overflow || overflow
    search :=
      { count := ⟨chosen.length, Nat.lt_succ_of_le (List.length_take_le 8 found)⟩
        first := found.head? == some 0
        line
        stoppedAt } }

/-- Draw the sprite in a slot of the secondary memory into the sprite line, given its row. -/
def drawSprite (ppu : Ppu) (cartridge : C) (slot : Nat) (row : UInt16) : Ppu × C :=
  let tile := ppu.secondaryOam.load (4 * slot + 1)
  let flags := ppu.secondaryOam.load (4 * slot + 2)
  let x := (ppu.secondaryOam.load (4 * slot + 3)).toNat
  let height := UInt16.ofNat ppu.control.spriteHeight
  let row := if Byte.bit flags 7 then height - 1 - row else row
  let plane := Sprite.planeAddress ppu.control tile row
  let (plane0, cartridge) := ppu.readVram cartridge plane
  let (plane1, cartridge) := ppu.readVram cartridge (plane + 8)
  let behind := Byte.bit flags 5
  let first := slot == 0 && ppu.search.first
  let draw (line : SpriteLine) (i : Fin 8) : SpriteLine :=
    let bit := if Byte.bit flags 6 then i.val else 7 - i.val
    line.draw (x + i) (tilePixel plane0 plane1 bit (flags % 4)) behind first
  ({ ppu with spriteLine := Fin.foldl 8 draw ppu.spriteLine }, cartridge)

/-- Fetch the sprite in a slot. The first slot starts a new sprite line; slots without a sprite
add nothing, nor does a sprite that no longer reaches the line. -/
def fetchSprite (ppu : Ppu) (cartridge : C) (slot : Nat) : Ppu × C :=
  let ppu := if slot = 0 then ppu.clearSpriteLine else ppu
  if slot < ppu.search.count then
    let row := ppu.search.line - (ppu.secondaryOam.load (4 * slot)).toUInt16
    if row.toNat < ppu.control.spriteHeight then ppu.drawSprite cartridge slot row
    else (ppu, cartridge)
  else (ppu, cartridge)

end Ppu

end Famicom
