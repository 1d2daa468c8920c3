/-!
# Video standards

Consoles for the two standards differ in the order of two emphasis bits; the shape of a frame is
taken to be the same.
-/

namespace Famicom

/-- The video standard that a console is made for. -/
inductive VideoStandard where
  | ntsc
  | pal
  deriving DecidableEq, Repr, Inhabited

/-- Three emphasis bits, as a program writes them, in the order red, green, blue. -/
def VideoStandard.emphasis : VideoStandard → UInt8 → UInt8
  | .ntsc, bits => bits
  | .pal, bits => 4 * (bits / 4) + 2 * (bits % 2) + bits / 2 % 2

end Famicom
