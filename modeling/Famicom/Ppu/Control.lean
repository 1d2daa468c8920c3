import Famicom.Byte

/-!
# Control registers

The two registers that a program writes to steer the picture unit, each a byte read as named
settings, and the three flags that the unit reports.
-/

namespace Famicom

/-- The control register at `$2000`. -/
structure Control where
  byte : UInt8
  deriving DecidableEq, Repr, Inhabited

namespace Control

/-- By how much an access at `$2007` advances the address. -/
def increment (c : Control) : UInt16 := if Byte.bit c.byte 2 then 32 else 1

/-- The pattern table of small sprites. -/
def spriteTable (c : Control) : UInt16 := if Byte.bit c.byte 3 then 0x1000 else 0

/-- The pattern table of the background. -/
def backgroundTable (c : Control) : UInt16 := if Byte.bit c.byte 4 then 0x1000 else 0

/-- Whether sprites are two tiles high. -/
def tallSprites (c : Control) : Bool := Byte.bit c.byte 5

/-- The height of a sprite in lines. -/
def spriteHeight (c : Control) : Nat := if c.tallSprites then 16 else 8

/-- Whether vertical blanking interrupts the processor. -/
def nmiEnabled (c : Control) : Bool := Byte.bit c.byte 7

end Control

/-- The mask register at `$2001`. -/
structure Mask where
  byte : UInt8
  deriving DecidableEq, Repr, Inhabited

namespace Mask

/-- Whether colours are reduced to the grey column. -/
def grayscale (m : Mask) : Bool := Byte.bit m.byte 0

/-- Whether the background shows in the leftmost eight columns. -/
def backgroundLeft (m : Mask) : Bool := Byte.bit m.byte 1

/-- Whether sprites show in the leftmost eight columns. -/
def spritesLeft (m : Mask) : Bool := Byte.bit m.byte 2

/-- Whether the background shows. -/
def showBackground (m : Mask) : Bool := Byte.bit m.byte 3

/-- Whether sprites show. -/
def showSprites (m : Mask) : Bool := Byte.bit m.byte 4

/-- Whether the unit renders at all. -/
def rendering (m : Mask) : Bool := m.showBackground || m.showSprites

/-- The three emphasis bits, in the console's own order. -/
def emphasisBits (m : Mask) : UInt8 := m.byte / 0x20

end Mask

/-- The flags of the status register at `$2002`. -/
structure PpuStatus where
  /-- More sprites on a line than can be shown, as far as the unit notices. -/
  overflow : Bool
  /-- An opaque pixel of the first sprite has met the background. -/
  spriteZeroHit : Bool
  /-- The beam is between two pictures. -/
  vblank : Bool
  deriving DecidableEq, Repr, Inhabited

namespace PpuStatus

/-- No flag is set. -/
def clear : PpuStatus := ⟨false, false, false⟩

/-- The flags as the upper bits of a byte. -/
def toByte (s : PpuStatus) : UInt8 :=
  Byte.ofBits false false false false false s.overflow s.spriteZeroHit s.vblank

end PpuStatus

end Famicom
