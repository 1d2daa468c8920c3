import Famicom.Decimal.Basic

/-!
# Shortest decimals

A binary floating-point number is read back from every decimal in the interval of the numbers that
round to it. `Binary.shortest` finds a decimal in that interval with as few digits as possible, and
of those the one nearest to the number. For each count of digits it looks at the number's two
neighbours on the grid of decimals with that many digits: if the interval holds any point of the
grid, it holds one of them.
-/

namespace Famicom

/-- The positive number `mantissa · 2 ^ exponent` of a format in which the next smaller number is
half as far away as the next larger one if `boundary` says so. -/
structure Binary where
  mantissa : Nat
  exponent : Int
  boundary : Bool
  deriving DecidableEq, Repr

namespace Binary

/-- The number in units of a quarter of its last place. -/
def quarters (b : Binary) : Nat := 4 * b.mantissa

/-- The lower end of the interval, in quarters. -/
def low (b : Binary) : Nat := b.quarters - (if b.boundary then 1 else 2)

/-- The upper end of the interval, in quarters. -/
def high (b : Binary) : Nat := b.quarters + 2

/-- A quarter of the last place is this many times `1 / quarterDen`. -/
def quarterNum (b : Binary) : Nat := 1 <<< (b.exponent - 2).toNat

/-- The denominator of a quarter of the last place. -/
def quarterDen (b : Binary) : Nat := 1 <<< (2 - b.exponent).toNat

/-- The greatest power of ten that is not above the number. -/
def decimalExponent (b : Binary) : Int :=
  let num := b.quarters * b.quarterNum
  let den := b.quarterDen
  if den ≤ num then (Decimal.digitsOf (num / den)).length - 1
  else -((Decimal.digitsOf ((den + num - 1) / num - 1)).length : Int)

/-- The grid point inside the interval that is nearest to the number among its two neighbours on
the grid `10 ^ k`; a tie goes to the greater. -/
def gridPoint? (b : Binary) (k : Int) : Option Nat :=
  let gridScale := Nat.pow 10 k.toNat * b.quarterDen
  let scale := b.quarterNum * Nat.pow 10 (-k).toNat
  let value := b.quarters * scale
  let inside (c : Nat) : Bool :=
    if b.mantissa % 2 = 0 then b.low * scale ≤ c * gridScale && c * gridScale ≤ b.high * scale
    else b.low * scale < c * gridScale && c * gridScale < b.high * scale
  let below := value / gridScale
  let above := below + 1
  match inside below, inside above with
  | true, true =>
    some (if value - below * gridScale < above * gridScale - value then below else above)
  | true, false => some below
  | false, true => some above
  | false, false => none

/-- The grid point with `count` digits, and its grid. -/
def withDigits? (b : Binary) (count : Nat) : Option (Nat × Int) :=
  let k := b.decimalExponent + 1 - count
  (b.gridPoint? k).map fun c => (c, k)

/-- The shortest decimal that is read back as the number. -/
def shortest (b : Binary) (negative : Bool) : Decimal :=
  let (digits, k) := ((List.range' 1 17).findSome? b.withDigits?).getD (0, 0)
  Decimal.normal negative digits k

end Binary

end Famicom
