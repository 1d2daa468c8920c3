/-!
# Nametable mirroring

The console has memory for two nametables and the picture unit addresses four. A cartridge decides
which of the two stands behind each of the four by driving one address line of that memory.
-/

namespace Famicom

/-- The ways to wire the four nametables. -/
inductive Mirroring where
  /-- The upper two are one, and so are the lower two. -/
  | horizontal
  /-- The left two are one, and so are the right two. -/
  | vertical
  /-- All four are the first. -/
  | singleLower
  /-- All four are the second. -/
  | singleUpper
  /-- All four are distinct, in memory on the board. -/
  | fourScreen
  deriving DecidableEq, Repr, Inhabited

/-- Whether the second nametable memory answers at a nametable address. -/
def Mirroring.ciramA10 : Mirroring → UInt16 → Bool
  | .horizontal, address => address / 0x800 % 2 == 1
  | .vertical, address | .fourScreen, address => address / 0x400 % 2 == 1
  | .singleLower, _ => false
  | .singleUpper, _ => true

end Famicom
