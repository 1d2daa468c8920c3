import Famicom.Decimal.Nearest
import Famicom.Decimal.Shortest

/-!
# Decimals and floating point

The way from a floating-point number to the decimal that is written for it, and back.
-/

namespace Famicom

namespace Decimal

/-- The decimal that is written for a finite floating-point number. -/
def ofFloat (x : Float) : Decimal :=
  let bits := x.toBits.toNat
  let negative := 1 <<< 63 ≤ bits
  let exponent : Nat := bits >>> 52 % 0x800
  let fraction : Nat := bits % (1 <<< 52)
  if exponent = 0 then
    if fraction = 0 then normal negative 0 0
    else Binary.shortest ⟨fraction, -1074, false⟩ negative
  else Binary.shortest ⟨1 <<< 52 + fraction, exponent - 1075, fraction = 0⟩ negative

/-- The floating-point number nearest to a decimal; a decimal beyond all of them has none. -/
def toFloat? (d : Decimal) : Option Float :=
  d.toBits?.map fun bits => Float.ofBits (UInt64.ofNat bits)

end Decimal

instance : DecimalNotation Float where
  toDecimal x :=
    if x.isNaN then .undefined
    else if x.isInf then .infinite (x < 0)
    else .finite (.ofFloat x)
  ofDecimal?
    | .finite d => d.toFloat?
    | .infinite negative => some (if negative then -(1 / 0) else 1 / 0)
    | .undefined => some (0 / 0)

end Famicom
