import Famicom.Cartridge.Nrom
import Famicom.Ppu.Background
import Famicom.Ppu.Composition
import Famicom.Ppu.Sprite
import Famicom.Proofs.Ppu.Scroll

/-!
# The picture of the four nametables

What the unit has to draw, said without an address register: a picture of 512 by 480 pixels, made of
four nametables of 32 by 30 tiles, in which every pixel is the colour of its tile's pattern in the
palette of its quadrant.

* `Picture.pixel`: a pixel of the picture, given the bytes of the unit's address space.
* `Ppu.backgroundWord`: a pixel of the screen, which is a window onto the picture.
* `Ppu.fetchTile_eq`, `Ppu.lineAt_place`: a fetch at a place yields eight pixels of the picture.
-/

namespace Famicom

namespace Picture

variable (bytes : Nat → UInt8) (control : Control) (row column : Nat)

/-- Where the nametable begins in which a pixel lies. -/
def nametable : Nat := 0x2000 + 0x800 * (row / 240) + 0x400 * (column / 256)

/-- The number of the tile in which a pixel lies. -/
def tile : Nat := (bytes (nametable row column + 32 * (row % 240 / 8) + column % 256 / 8)).toNat

/-- The palette of the quadrant of 16 by 16 pixels in which a pixel lies. Four quadrants share a
byte. -/
def palette : Nat :=
  (bytes (nametable row column + 0x3C0 + 8 * (row % 240 / 32) + column % 256 / 32)).toNat >>>
    (4 * (row % 240 / 16 % 2) + 2 * (column % 256 / 16 % 2)) % 4

/-- The colour of a pixel within its palette. -/
def color : Nat :=
  let table := if Byte.bit control.byte 4 then 0x1000 else 0
  let plane := table + 16 * tile bytes row column + row % 8
  let bit := 7 - column % 8
  (bytes plane).toNat >>> bit % 2 + 2 * ((bytes (plane + 8)).toNat >>> bit % 2)

/-- A pixel of the picture: the colour in its palette, or zero where it is transparent. -/
def pixel : Nat :=
  if color bytes control row column = 0 then 0
  else 4 * palette bytes row column + color bytes control row column

end Picture

namespace Ppu

/-- The bytes that the unit sees, by address. -/
def vramByte (ppu : Ppu) (board : Nrom) (address : Nat) : UInt8 :=
  (ppu.readVram board (UInt16.ofNat address)).1

/-- The word at a column and a line of a screen that shows the background alone: the screen is a
window onto the picture, its corner where the address register and the fine column say. -/
def backgroundWord (ppu : Ppu) (board : Nrom) (x : Fin 256) (y : Fin 240) : UInt16 :=
  let row := (240 * ppu.t.nametableY.toNat + 8 * ppu.t.coarseY.toNat + ppu.t.fineY.toNat + y) % 480
  let column := (256 * ppu.t.nametableX.toNat + 8 * ppu.t.coarseX.toNat + ppu.fineX + x) % 512
  let entry := if x.val < 8 ∧ ppu.mask.backgroundLeft = false then 0
    else Picture.pixel (ppu.vramByte board) ppu.control row column
  ppu.emphasis.toUInt16 <<< 6 ||| (ppu.paletteColor (UInt8.ofNat entry)).toUInt16

/-- The line of the tile at an address. -/
def lineAt (ppu : Ppu) (board : Nrom) (v : VramAddress) : TileLine :=
  let tile := (ppu.readVram board v.tileAddress).1
  let palettes := (ppu.readVram board v.attributeAddress).1
  let plane := ppu.control.backgroundTable + 16 * tile.toUInt16 + v.fineY
  .ofPlanes (ppu.readVram board plane).1 (ppu.readVram board (plane + 8)).1 (v.paletteOf palettes)

/-- Reading does not change the board. -/
theorem readVram_snd (ppu : Ppu) (board : Nrom) (address : UInt16) :
    (ppu.readVram board address).2 = board := by
  unfold readVram
  dsimp only
  split
  · rfl
  · split
    · split <;> rfl
    · rfl

/-- What a read yields depends on the memories and the wiring, and on the mask for the palette. -/
theorem readVram_fst (ppu : Ppu) (board : Nrom) (address : UInt16) :
    (ppu.readVram board address).1 =
      if address % 0x4000 < 0x2000 then board.ppuLoad (address % 0x4000)
      else if address % 0x4000 < 0x3F00 then
        if !board.fourScreen then
          ppu.ciram.load
            ((if board.mirroring.ciramA10 (nametableAddress (address % 0x4000)) then 0x400 else 0) +
              (nametableAddress (address % 0x4000) % 0x400).toNat)
        else board.ppuLoad (nametableAddress (address % 0x4000))
      else ppu.paletteColor (address % 0x4000).toUInt8 := by
  unfold readVram
  dsimp only
  split
  · rfl
  · split
    · show (if !board.fourScreen then _ else _ : UInt8 × Nrom).1 = _
      split <;> rfl
    · rfl

/-- On a board without latches, fetching a sprite changes the sprite line only. -/
theorem fetchSprite_board (ppu : Ppu) (board : Nrom) (n : Nat) :
    ∃ dots, ppu.fetchSprite board n = ({ ppu with spriteLine := dots }, board) := by
  have hdraw (ppu : Ppu) (row : UInt16) :
      ∃ dots, ppu.drawSprite board n row = ({ ppu with spriteLine := dots }, board) := by
    unfold drawSprite
    dsimp only
    rw [readVram_snd, readVram_snd]
    exact ⟨_, rfl⟩
  have hfetch (ppu : Ppu) (row : UInt16) (taken reached : Prop) [Decidable taken]
      [Decidable reached] : ∃ dots,
      (if taken then if reached then ppu.drawSprite board n row else (ppu, board)
        else (ppu, board)) = ({ ppu with spriteLine := dots }, board) := by
    split
    · split
      · exact hdraw ppu row
      · exact ⟨_, rfl⟩
    · exact ⟨_, rfl⟩
  unfold fetchSprite
  dsimp only
  split
  · exact hfetch ppu.clearSpriteLine _ _ _
  · exact hfetch ppu _ _ _

theorem fetchTile_eq (ppu : Ppu) (board : Nrom) :
    ppu.fetchTile board =
      ({ ppu with background := ppu.background.shift (ppu.lineAt board ppu.v) }, board) := by
  unfold fetchTile lineAt
  simp only [readVram_snd]

theorem readVram_eq (ppu : Ppu) (board : Nrom) {address : UInt16} {n : Nat}
    (h : address.toNat = n) : (ppu.readVram board address).1 = ppu.vramByte board n := by
  rw [vramByte, ← h, UInt16.ofNat_toNat]

theorem get_ofPlanes (plane0 plane1 palette : UInt8) (i : Fin 8) :
    (TileLine.ofPlanes plane0 plane1 palette).get i = tilePixel plane0 plane1 (7 - i) palette :=
  Vector.getElem_ofFn i.isLt

/-- A fetch at a place yields eight pixels of the picture. -/
theorem lineAt_place (ppu : Ppu) (board : Nrom) {row column : Nat} (hr : row < 480)
    (hc : column < 64) (i : Fin 8) :
    ((ppu.lineAt board (.place row column)).get i).toNat =
      Picture.pixel (ppu.vramByte board) ppu.control row (8 * column + i) := by
  have hacross : (8 * column + i) / 256 = column / 32 := by omega
  have htile : (8 * column + i) % 256 / 8 = column % 32 := by omega
  have hattribute : (8 * column + i) % 256 / 32 = column % 32 / 4 := by omega
  have hquadrant : (8 * column + i) % 256 / 16 % 2 = column % 32 / 2 % 2 := by omega
  have hbit : (8 * column + i) % 8 = i := by omega
  obtain ⟨hfy, -⟩ := VramAddress.fields_place row column
  -- the four reads, one after the other
  have hnumber : (ppu.readVram board (VramAddress.place row column).tileAddress).1.toNat =
      Picture.tile (ppu.vramByte board) row (8 * column + i) := by
    rw [readVram_eq ppu board (VramAddress.toNat_tileAddress hr hc), Picture.tile,
      Picture.nametable, hacross, htile]
  have hpalette : ((VramAddress.place row column).paletteOf
      (ppu.readVram board (VramAddress.place row column).attributeAddress).1).toNat =
      Picture.palette (ppu.vramByte board) row (8 * column + i) := by
    have haddress : 0x23C0 + 0x800 * (row / 240) + 0x400 * (column / 32) + 8 * (row % 240 / 32) +
        column % 32 / 4 = Picture.nametable row (8 * column + i) + 0x3C0 + 8 * (row % 240 / 32) +
          column % 32 / 4 := by
      rw [Picture.nametable, hacross]
      omega
    rw [VramAddress.toNat_paletteOf,
      readVram_eq ppu board (VramAddress.toNat_attributeAddress hr hc), haddress, Picture.palette,
      hattribute, hquadrant]
  have hplane : (ppu.control.backgroundTable +
      16 * (ppu.readVram board (VramAddress.place row column).tileAddress).1.toUInt16 +
      (VramAddress.place row column).fineY).toNat =
      (if Byte.bit ppu.control.byte 4 then 0x1000 else 0) +
        16 * Picture.tile (ppu.vramByte board) row (8 * column + i) + row % 8 ∧
      (if Byte.bit ppu.control.byte 4 then 0x1000 else 0) +
        16 * Picture.tile (ppu.vramByte board) row (8 * column + i) + row % 8 < 0x2000 := by
    have hlt : Picture.tile (ppu.vramByte board) row (8 * column + i) < 256 := UInt8.toNat_lt _
    have htable : ppu.control.backgroundTable.toNat =
        if Byte.bit ppu.control.byte 4 then 0x1000 else 0 := by
      unfold Control.backgroundTable
      split <;> rfl
    simp only [UInt16.toNat_add, UInt16.toNat_mul, UInt8.toNat_toUInt16, UInt16.reduceToNat,
      htable, hnumber, hfy]
    split <;> omega
  have hsmall : ((VramAddress.place row column).paletteOf
      (ppu.readVram board (VramAddress.place row column).attributeAddress).1).toNat < 4 := by
    rw [VramAddress.toNat_paletteOf]
    exact Nat.mod_lt _ (by decide)
  unfold lineAt
  dsimp only
  rw [get_ofPlanes, toNat_tilePixel _ _ _ _ hsmall, hpalette]
  generalize ppu.control.backgroundTable + 16 * _ + _ = plane at hplane ⊢
  obtain ⟨hfirst, hlt⟩ := hplane
  have hsecond : (plane + 8).toNat = plane.toNat + 8 := by
    rw [UInt16.toNat_add]
    exact Nat.mod_eq_of_lt (by simp only [UInt16.reduceToNat]; omega)
  rw [readVram_eq ppu board hfirst, readVram_eq ppu board (hsecond.trans (by rw [hfirst])),
    Picture.pixel, Picture.color, hbit]

end Ppu

end Famicom
