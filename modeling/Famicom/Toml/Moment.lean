/-!
# Dates and times

The words that are dates, times of day, or both together, then with or without an offset from
universal time. Seconds may be left out, and may have a fraction.
-/

namespace Famicom.Toml

/-- What is left behind a character. -/
def behind? (c : Char) : List Char → Option (List Char)
  | d :: rest => if d = c then some rest else none
  | [] => none

/-- A number of two digits within bounds, and what is left behind it. -/
def twoDigits? (least greatest : Nat) : List Char → Option (Nat × List Char)
  | a :: b :: rest =>
    if a.isDigit ∧ b.isDigit then
      let n := Nat.ofDigitChars 10 [a, b] 0
      if least ≤ n ∧ n ≤ greatest then some (n, rest) else none
    else none
  | _ => none

/-- The number of days of a month. -/
def daysOf (year month : Nat) : Nat :=
  if month = 2 then
    if year % 4 = 0 ∧ (year % 100 ≠ 0 ∨ year % 400 = 0) then 29 else 28
  else if month = 4 ∨ month = 6 ∨ month = 9 ∨ month = 11 then 30
  else 31

/-- What is left behind a date. -/
def date? (word : List Char) : Option (List Char) := do
  let (century, rest) ← twoDigits? 0 99 word
  let (year, rest) ← twoDigits? 0 99 rest
  let (month, rest) ← twoDigits? 1 12 (← behind? '-' rest)
  let (_, rest) ← twoDigits? 1 (daysOf (100 * century + year) month) (← behind? '-' rest)
  return rest

/-- What is left behind the fraction of a second, if there is one. -/
def secondFraction? : List Char → Option (List Char)
  | '.' :: c :: rest => if c.isDigit then some (rest.dropWhile Char.isDigit) else none
  | '.' :: [] => none
  | rest => some rest

/-- What is left behind the seconds, if there are any; a minute may end with a leap second. -/
def seconds? : List Char → Option (List Char)
  | ':' :: rest => do
    let (_, rest) ← twoDigits? 0 60 rest
    secondFraction? rest
  | rest => some rest

/-- What is left behind a time of day. -/
def time? (word : List Char) : Option (List Char) := do
  let (_, rest) ← twoDigits? 0 23 word
  let (_, rest) ← twoDigits? 0 59 (← behind? ':' rest)
  seconds? rest

/-- Whether a text is an offset from universal time, or empty. -/
def isOffset : List Char → Bool
  | [] => true
  | ['Z'] | ['z'] => true
  | sign :: rest =>
    if sign = '+' ∨ sign = '-' then
      match twoDigits? 0 23 rest with
      | some (_, ':' :: rest) => (twoDigits? 0 59 rest).any (·.2.isEmpty)
      | _ => false
    else false

/-- Whether a text is what may stand behind a date: nothing, or a time. -/
def isTimeOfDate : List Char → Bool
  | [] => true
  | separator :: rest =>
    (separator == 'T' || separator == 't' || separator == ' ') && (time? rest).any isOffset

/-- Whether a word is a date, a time of day, or both. -/
def isMoment (word : List Char) : Bool :=
  (date? word).any isTimeOfDate || (time? word).any List.isEmpty

end Famicom.Toml
