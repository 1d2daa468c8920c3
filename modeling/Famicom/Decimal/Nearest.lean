import Famicom.Decimal.Basic

/-!
# The nearest floating-point number

A number is rounded to the 64-bit binary format by one exact division: the exponent of the last
place follows from the size of the number, and the quotient by that place is rounded to the nearest
whole number. The bits of the format, read as a natural number, count its numbers from zero
upwards, so a quotient that is rounded up to the next power of two needs no care.
-/

namespace Famicom

namespace Decimal

/-- A quotient rounded to the nearest whole number; a half goes to the even neighbour. -/
def roundDiv (num den : Nat) : Nat :=
  let below := num / den
  let rest := num % den
  if 2 * rest < den then below
  else if den < 2 * rest then below + 1
  else below + below % 2

/-- The power of two that a unit in the last place of a number is worth. -/
def lastPlace (num den : Nat) : Int :=
  let estimate : Int := (num.log2 : Int) - den.log2 - 53
  let place :=
    if den <<< (53 + estimate.toNat) ≤ num <<< (-estimate).toNat then estimate + 1
    else estimate
  max place (-1074)

/-- The bits of the floating-point number nearest to a quotient; too large a quotient has none. -/
def nearestBits? (num den : Nat) : Option Nat :=
  let place := lastPlace num den
  let mantissa := roundDiv (num <<< (-place).toNat) (den <<< place.toNat)
  let bits := (place + 1074).toNat <<< 52 + mantissa
  if bits < 0x7FF <<< 52 then some bits else none

/-- The bits of the floating-point number nearest to a decimal; too large a decimal has none. The
powers of ten of numbers far out of range are not computed. -/
def toBits? (d : Decimal) : Option Nat :=
  let size := (digitsOf d.digits).length + d.exponent
  let magnitude : Option Nat :=
    if d.digits = 0 ∨ size < -400 then some 0
    else if 400 < size then none
    else nearestBits? (d.digits * Nat.pow 10 d.exponent.toNat) (Nat.pow 10 (-d.exponent).toNat)
  magnitude.map fun bits => if d.negative then 1 <<< 63 + bits else bits

end Decimal

end Famicom
