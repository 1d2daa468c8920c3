/-!
# Time

The schedule of a frame and the pacing of frames compute with times that are not whole cycles or
milliseconds. They do so over any type with the operations of `Time`: the console runs on floating
point, and statements about drift can be made over exact numbers.
-/

namespace Famicom

/-- Numbers that measure time. -/
class Time (T : Type) extends Add T, Sub T, Neg T, Div T where
  /-- A whole number of units. -/
  ofNat : Nat → T
  /-- Whether one time is before another. -/
  lt : T → T → Bool
  /-- The greatest whole time that is not after this one. -/
  floor : T → T
  /-- The number of the last whole unit that has begun at this time; there is none before zero. -/
  lastUnit? : T → Option Nat

namespace Time

variable {T : Type} [Time T]

/-- No time. -/
def zero : T := ofNat 0

/-- The quotient of two whole numbers. -/
def ratio (num den : Nat) : T := ofNat num / ofNat den

end Time

/-- Floating-point time; one that is not a number lies before every unit. -/
instance : Time Float where
  ofNat := Float.ofNat
  lt a b := a < b
  floor := Float.floor
  lastUnit? t := if 0 ≤ t then some t.toUInt64.toNat else none

end Famicom
