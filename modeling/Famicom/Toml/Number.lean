import Famicom.Decimal.Nearest
import Famicom.Toml.Token

/-!
# Numbers

The digits that numbers are made of, and the values of whole numbers in a base and of decimals with
a fraction or an exponent. Underscores may stand between digits; they are taken out before anything
else is read.

* `ungroup?_of_not_mem`: a word without underscores stays as it is.
-/

namespace Famicom.Toml

/-- What is left of a run without its underscores, each of which must stand between two digits;
`joined` says whether a digit stands before the run. -/
def ungroupFrom? (isDigit : Char → Bool) (joined : Bool) : List Char → Option (List Char)
  | [] => some []
  | c :: rest =>
    if c = '_' then
      if joined && rest.head?.any isDigit then ungroupFrom? isDigit false rest else none
    else (ungroupFrom? isDigit (isDigit c) rest).map (c :: ·)

/-- What is left of a word without its underscores, each of which must stand between two digits. -/
def ungroup? (isDigit : Char → Bool) (word : List Char) : Option (List Char) :=
  ungroupFrom? isDigit false word

theorem ungroupFrom?_of_not_mem (isDigit : Char → Bool) {run : List Char} (h : '_' ∉ run)
    (joined : Bool) : ungroupFrom? isDigit joined run = some run := by
  induction run generalizing joined with
  | nil => rfl
  | cons c rest ih =>
    have hc : c ≠ '_' := fun hc => h (by simp [hc])
    have hrest := ih fun hmem => h (List.mem_cons_of_mem _ hmem)
    simp [ungroupFrom?, hc, hrest]

theorem ungroup?_of_not_mem (isDigit : Char → Bool) {word : List Char} (h : '_' ∉ word) :
    ungroup? isDigit word = some word := ungroupFrom?_of_not_mem isDigit h false

/-- Whether a digit belongs to a base of at most sixteen. -/
def isDigitOf (base : Nat) (c : Char) : Bool :=
  match hexValue? c with
  | some value => value < base
  | none => false

/-- The number that digits of a base stand for. -/
def naturalOf (base : Nat) (digits : List Char) : Nat :=
  digits.foldl (fun n c => base * n + (hexValue? c).getD 0) 0

/-- Whether a word has a minus sign, and what stands behind the sign. -/
def splitSign : List Char → Bool × List Char
  | '-' :: rest => (true, rest)
  | '+' :: rest => (false, rest)
  | rest => (false, rest)

/-- Whether a whole number has at most some number of bits, with a sign or without. -/
def fits (bits : Nat) (n : Int) : Bool :=
  match n with
  | .ofNat n => n < 1 <<< bits
  | .negSucc n => n < 1 <<< (bits - 1)

/-- The whole number of at most 128 bits that digits of a base stand for, behind a sign if there
is one. -/
def integer? (base : Nat) (run : List Char) : Option Int :=
  let (negative, digits) := splitSign run
  if digits.isEmpty || !digits.all (isDigitOf base) then none
  else
    let size : Int := naturalOf base digits
    let n := if negative then -size else size
    if fits 128 n then some n else none

/-- The digits of a fraction and what is left behind them; there need not be a fraction. -/
def fraction? : List Char → Option (List Char × List Char)
  | '.' :: run =>
    let digits := run.takeWhile Char.isDigit
    if digits.isEmpty then none else some (digits, run.dropWhile Char.isDigit)
  | run => some ([], run)

/-- The number of an exponent; there need not be an exponent. -/
def exponent? : List Char → Option Int
  | [] => some 0
  | letter :: run =>
    let (negative, digits) := splitSign run
    if (letter != 'e' && letter != 'E') || digits.isEmpty || !digits.all Char.isDigit then none
    else
      let n : Int := Nat.ofDigitChars 10 digits 0
      some (if negative then -n else n)

/-- The decimal in a run with a fraction, an exponent or both, and the count of the digits before
them. -/
def decimal? (run : List Char) : Option (Nat × Decimal) := do
  let (negative, run) := splitSign run
  let whole := run.takeWhile Char.isDigit
  let (fraction, rest) ← fraction? (run.dropWhile Char.isDigit)
  let exponent ← exponent? rest
  if whole.isEmpty then none
  else
    return (whole.length,
      .normal negative (Nat.ofDigitChars 10 (whole ++ fraction) 0) (exponent - fraction.length))

end Famicom.Toml
