import Famicom.Toml.Moment
import Famicom.Toml.Number

/-!
# Scalars

The values that have no parts. A string is a scalar by its quotes, every other scalar by the form of
its word. A word may have the form of a number without being one that can be read: it has no digits,
or characters of another base among them, or it is beyond every number that can be held. Such a
scalar may stand wherever nobody reads it.
-/

namespace Famicom.Toml

/-- A value that has no parts. -/
inductive Scalar where
  | text (chars : List Char)
  | integer (n : Int)
  | real (x : ExtendedDecimal)
  | boolean (b : Bool)
  /-- A date, a time of day or both, as written. -/
  | moment (written : List Char)
  /-- A word in the form of a number that has no value. -/
  | unreadable (written : List Char)
  deriving DecidableEq, Repr

namespace Scalar

/-- The scalar of a whole number in a base. -/
def ofInteger (base : Nat) (run : List Char) : Scalar :=
  match integer? base run with
  | some n => .integer n
  | none => .unreadable run

/-- The scalar of a decimal, which must be within the range of 64-bit floating point to be read. -/
def ofDecimal (run : List Char) (d : Decimal) : Scalar :=
  if d.toBits?.isSome then .real (.finite d) else .unreadable run

/-- Whether a character is a digit of some base. -/
def isAnyDigit (c : Char) : Bool := (hexValue? c).isSome

/-- The scalar of a whole number in a base that its word names. -/
def ofBase? (base : Nat) (run : List Char) : Option Scalar :=
  if run.all fun c => isDigitOf base c || c == '_' then
    (ungroup? isAnyDigit run).map (ofInteger base)
  else none

/-- The scalar of a word with a fraction or an exponent. A leading zero must be the only digit
before them. -/
def ofReal? (word : List Char) (leadingZero : Bool) : Option Scalar := do
  let run ← ungroup? Char.isDigit word
  let (count, d) ← decimal? run
  if leadingZero && 1 < count then none else return ofDecimal run d

/-- The scalar of a word that is a decimal number or a moment; `value` is the word behind its sign.
What follows the first digits decides which of them the word has the form of. -/
def ofNumber? (word value : List Char) : Option Scalar :=
  let leadingZero := value.head? == some '0'
  match value.dropWhile Char.isDigit with
  | [] =>
    if value.isEmpty || (leadingZero && 1 < value.length) then none
    else some (ofInteger 10 word)
  | c :: rest =>
    if c = '-' ∨ c = ':' then if isMoment word then some (.moment word) else none
    else if (c :: rest).contains ' ' then none
    else if (c :: rest).any fun c => c == '.' || c == 'e' || c == 'E' then
      ofReal? word leadingZero
    else if c = '_' ∧ !leadingZero then (ungroup? isAnyDigit word).map (ofInteger 10)
    else none

/-- The scalar that a word stands for. -/
def ofWord? (word : List Char) : Option Scalar :=
  if word = "true".toList then some (.boolean true)
  else if word = "false".toList then some (.boolean false)
  else
    let (negative, value) := splitSign word
    if value = "inf".toList then some (.real (.infinite negative))
    else if value = "nan".toList then some (.real .undefined)
    else
      match word with
      | '0' :: 'x' :: run => ofBase? 16 run
      | '0' :: 'o' :: run => ofBase? 8 run
      | '0' :: 'b' :: run => ofBase? 2 run
      | word => ofNumber? word value

/-- Whether a scalar has a value. -/
def isReadable : Scalar → Bool
  | .unreadable _ => false
  | _ => true

end Scalar

end Famicom.Toml
