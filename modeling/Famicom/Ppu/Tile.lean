import Famicom.Byte

/-!
# Tiles

A tile line is two planes of eight bits, which together give each pixel one of four colours. Colour
zero is transparent. The picture unit keeps two tiles of background ahead of the beam, so that the
eight pixels that it shows may begin anywhere in the first.
-/

namespace Famicom

/-- The pixel at a bit of two planes: the palette and the colour in it, or zero where it is
transparent. -/
@[inline] def tilePixel (plane0 plane1 : UInt8) (bit : Nat) (palette : UInt8) : UInt8 :=
  let color := (Byte.bit plane0 bit).toUInt8 + 2 * (Byte.bit plane1 bit).toUInt8
  if color = 0 then 0 else 4 * palette + color

/-- A pixel is the colour in its palette, if it is not transparent. -/
theorem toNat_tilePixel (plane0 plane1 palette : UInt8) (bit : Nat) (hpalette : palette.toNat < 4) :
    (tilePixel plane0 plane1 bit palette).toNat =
      if plane0.toNat >>> bit % 2 + 2 * (plane1.toNat >>> bit % 2) = 0 then 0
      else 4 * palette.toNat +
        (plane0.toNat >>> bit % 2 + 2 * (plane1.toNat >>> bit % 2)) := by
  have hbit (b : UInt8) : (Byte.bit b bit).toNat = b.toNat >>> bit % 2 := by
    rw [Byte.bit, Nat.toNat_testBit, Nat.shiftRight_eq_div_pow]
  rw [← hbit, ← hbit]
  unfold tilePixel
  cases Byte.bit plane0 bit <;> cases Byte.bit plane1 bit
  · rfl
  all_goals
    simp [Bool.toUInt8, UInt8.toNat_add, UInt8.toNat_mul]
    omega

/-- Eight pixels, from left to right. -/
abbrev TileLine := Vector UInt8 8

namespace TileLine

/-- Eight transparent pixels. -/
def blank : TileLine := Vector.replicate 8 0

/-- The pixels of two planes; the highest bit is on the left. -/
def ofPlanes (plane0 plane1 palette : UInt8) : TileLine :=
  Vector.ofFn fun i => tilePixel plane0 plane1 (7 - i) palette

end TileLine

/-- The two background tiles that the unit holds. -/
structure TileWindow where
  left : TileLine
  right : TileLine
  deriving DecidableEq

namespace TileWindow

/-- Two blank tiles. -/
def blank : TileWindow := ⟨.blank, .blank⟩

/-- Move on by one tile. -/
def shift (window : TileWindow) (next : TileLine) : TileWindow := ⟨window.right, next⟩

/-- The pixel `i` places to the right of pixel `offset`. -/
@[inline] def pixel (window : TileWindow) (offset i : Fin 8) : UInt8 :=
  if h : offset.val + i < 8 then window.left[offset.val + i]
  else window.right[offset.val + i - 8]

end TileWindow

end Famicom
