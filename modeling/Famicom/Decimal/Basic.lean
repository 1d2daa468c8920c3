/-!
# Decimal numbers

A decimal number is a sign, some digits and a power of ten, so every number that can be written in
positional notation is one, exactly. A number has many decimals; the normal one has no trailing
zeros.
-/

namespace Famicom

/-- The number `digits · 10 ^ exponent`, or its opposite. -/
structure Decimal where
  negative : Bool
  digits : Nat
  exponent : Int
  deriving DecidableEq, Repr, Inhabited

namespace Decimal

/-- Digits without trailing zeros, and the power of ten that makes up for them. -/
def trim (digits : Nat) (exponent : Int) : Nat × Int :=
  if _ : digits ≠ 0 ∧ digits % 10 = 0 then trim (digits / 10) (exponent + 1) else (digits, exponent)
termination_by digits
decreasing_by omega

/-- The normal decimal of a number: no trailing zeros, and zero has the exponent zero. -/
def normal (negative : Bool) (digits : Nat) (exponent : Int) : Decimal :=
  if digits = 0 then { negative, digits := 0, exponent := 0 }
  else
    let (digits, exponent) := trim digits exponent
    { negative, digits, exponent }

/-- The decimal of a whole number; zero is not negative. -/
def ofInt (n : Int) : Decimal := normal (n < 0) n.natAbs 0

/-- The digits of a natural number. -/
def digitsOf (n : Nat) : List Char := Nat.toDigits 10 n

/-- Digits with a point before the last `places` of them, and at least one digit before the
point. -/
def pointed (digits : List Char) (places : Nat) : List Char :=
  let padded := List.replicate (places + 1 - digits.length) '0' ++ digits
  let whole := padded.length - places
  padded.take whole ++ '.' :: padded.drop whole

/-- Positional notation, whatever the exponent; a whole number keeps one zero behind the point. -/
def positional (d : Decimal) : List Char :=
  let unsigned :=
    if 0 ≤ d.exponent then
      digitsOf d.digits ++ List.replicate d.exponent.toNat '0' ++ ['.', '0']
    else pointed (digitsOf d.digits) (-d.exponent).toNat
  if d.negative then '-' :: unsigned else unsigned

end Decimal

/-- A decimal, an infinity, or what is not a number. -/
inductive ExtendedDecimal where
  | finite (d : Decimal)
  | infinite (negative : Bool)
  | undefined
  deriving DecidableEq, Repr, Inhabited

/-- Numbers with a decimal notation. Not every decimal need be one of them. -/
class DecimalNotation (T : Type) where
  /-- The decimal that is written for a number. -/
  toDecimal : T → ExtendedDecimal
  /-- The number that is read from a decimal. -/
  ofDecimal? : ExtendedDecimal → Option T

end Famicom
