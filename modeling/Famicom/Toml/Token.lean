import Famicom.Toml.Text

/-!
# Tokens

The text of a document falls into words, strings, marks, blanks and line ends; comments are
dropped. The text is read one character at a time by a machine whose mode says what the character
is part of, so reading is recursion on the text. A word is whatever stands between two marks:
which words mean something is not decided here.

* `Mode.run?_append`: a text may be read in two parts.
* `Mode.run?_word`: the characters of a word are kept until the word ends.
-/

namespace Famicom.Toml

/-- A part of a document. -/
inductive Token where
  | space
  | tab
  | newline
  | dot
  | equals
  | comma
  | openBracket
  | closeBracket
  | openBrace
  | closeBrace
  /-- A run of characters between two marks. -/
  | word (chars : List Char)
  /-- A string between quotes; only one between triple quotes may have more than one line. -/
  | text (chars : List Char) (multiline : Bool)
  deriving DecidableEq, Repr

/-- The two kinds of quotes: escapes are read between double quotes only. -/
inductive Quote where
  | basic
  | literal
  deriving DecidableEq, Repr

/-- The character of a quote. -/
def Quote.char : Quote → Char
  | .basic => '"'
  | .literal => '\''

/-- What the next character is part of. What has been read of a word or a string is kept in
reverse. -/
inductive Mode where
  /-- Outside of strings and comments, in a word unless it is empty. -/
  | outside (word : List Char)
  | comment
  /-- Behind the first quote of a string, or behind the second. -/
  | opening (quote : Quote) (twice : Bool)
  | line (quote : Quote) (text : List Char)
  /-- Behind the three quotes that open a string of lines. -/
  | blockStart (quote : Quote)
  /-- In a string of lines, behind some quotes that may turn out to close it. -/
  | block (quote : Quote) (text : List Char) (quotes : Nat)
  /-- Behind a backslash. -/
  | escape (multiline : Bool) (text : List Char)
  /-- In the digits of a character's number. -/
  | code (multiline : Bool) (text : List Char) (missing : Nat) (value : Nat)
  /-- Behind a backslash at the end of a line, or at the blanks before it. -/
  | continuation (text : List Char) (ended : Bool)

/-- The quote that a character opens. -/
def quoteOf? : Char → Option Quote
  | '"' => some .basic
  | '\'' => some .literal
  | _ => none

/-- The tokens of one character. -/
def mark? : Char → Option Token
  | ' ' => some .space
  | '\t' => some .tab
  | '\n' => some .newline
  | '.' => some .dot
  | '=' => some .equals
  | ',' => some .comma
  | '[' => some .openBracket
  | ']' => some .closeBracket
  | '\x7b' => some .openBrace
  | '\x7d' => some .closeBrace
  | _ => none

/-- Whether a character goes on with a word and may begin one. A quote does not begin a word, but
within a word it is a character like others. -/
def isWordChar (c : Char) : Bool := (mark? c).isNone && c != '#' && (quoteOf? c).isNone

/-- Whether a character may stand in a string or a comment: all but control characters, and
tabs. -/
def isPlain (c : Char) : Bool := (' ' ≤ c && c != '\x7f') || c == '\t'

/-- The token of a word, if there is one. -/
def wordToken (word : List Char) : List Token :=
  if word.isEmpty then [] else [.word word.reverse]

/-- The value of a hexadecimal digit. -/
def hexValue? (c : Char) : Option Nat :=
  if '0' ≤ c ∧ c ≤ '9' then some (c.toNat - 48)
  else if 'a' ≤ c ∧ c ≤ 'f' then some (c.toNat - 87)
  else if 'A' ≤ c ∧ c ≤ 'F' then some (c.toNat - 55)
  else none

/-- The character with a number; surrogates are not characters. -/
def charOfCode? (code : Nat) : Option Char :=
  if _ : code.isValidChar then some (Char.ofNat code) else none

/-- The inside of a string between double quotes. -/
def insideBasic (multiline : Bool) (text : List Char) : Mode :=
  if multiline then .block .basic text 0 else .line .basic text

/-- A character outside of strings and comments. -/
def stepOutside (word : List Char) (c : Char) : Mode × List Token :=
  match mark? c with
  | some token => (.outside [], wordToken word ++ [token])
  | none =>
    if c = '#' then (.comment, wordToken word)
    else
      match word, quoteOf? c with
      | [], some quote => (.opening quote false, [])
      | word, _ => (.outside (c :: word), [])

theorem stepOutside_wordChar {c : Char} (h : isWordChar c) (word : List Char) :
    stepOutside word c = (.outside (c :: word), []) := by
  simp only [isWordChar, Bool.and_eq_true, Option.isNone_iff_eq_none, bne_iff_ne] at h
  obtain ⟨⟨hm, hc⟩, hq⟩ := h
  unfold stepOutside
  rw [hm]
  dsimp only
  rw [if_neg hc, hq]
  cases word <;> rfl

/-- A character of a string on one line. -/
def stepLine (quote : Quote) (text : List Char) (c : Char) : Option (Mode × List Token) :=
  if c = quote.char then some (.outside [], [.text text.reverse false])
  else if c = '\\' ∧ quote = .basic then some (.escape false text, [])
  else if isPlain c then some (.line quote (c :: text), [])
  else none

/-- A character of a string of lines. Up to two quotes may stand before the three that close it. -/
def stepBlock (quote : Quote) (text : List Char) (quotes : Nat) (c : Char) :
    Option (Mode × List Token) :=
  let behind (count : Nat) := List.replicate count quote.char ++ text
  if c = quote.char then
    if quotes = 4 then some (.outside [], [.text (behind 2).reverse true])
    else some (.block quote text (quotes + 1), [])
  else if 3 ≤ quotes then
    let (mode, tokens) := stepOutside [] c
    some (mode, .text (behind (quotes - 3)).reverse true :: tokens)
  else if c = '\\' ∧ quote = .basic then some (.escape true (behind quotes), [])
  else if isPlain c ∨ c = '\n' then some (.block quote (c :: behind quotes) 0, [])
  else none

/-- A character behind a backslash. -/
def stepEscape (multiline : Bool) (text : List Char) (c : Char) : Option Mode :=
  let char (c : Char) : Option Mode := some (insideBasic multiline (c :: text))
  match c with
  | '"' => char '"'
  | '\\' => char '\\'
  | 'b' => char '\x08'
  | 't' => char '\t'
  | 'n' => char '\n'
  | 'f' => char '\x0c'
  | 'r' => char '\r'
  | 'e' => char '\x1b'
  | 'x' => some (.code multiline text 2 0)
  | 'u' => some (.code multiline text 4 0)
  | 'U' => some (.code multiline text 8 0)
  | '\n' => if multiline then some (.continuation text true) else none
  | ' ' | '\t' => if multiline then some (.continuation text false) else none
  | _ => none

/-- A digit of a character's number. -/
def stepCode (multiline : Bool) (text : List Char) (missing value : Nat) (c : Char) :
    Option Mode := do
  let digit ← hexValue? c
  let value := 16 * value + digit
  if missing ≤ 1 then
    let char ← charOfCode? value
    some (insideBasic multiline (char :: text))
  else some (.code multiline text (missing - 1) value)

/-- The mode behind a character, and the tokens that end with it or before it. -/
def Mode.step (mode : Mode) (c : Char) : Option (Mode × List Token) :=
  match mode with
  | .outside word => some (stepOutside word c)
  | .comment =>
    if c = '\n' then some (.outside [], [.newline])
    else if isPlain c then some (.comment, [])
    else none
  | .opening quote false =>
    if c = quote.char then some (.opening quote true, []) else stepLine quote [] c
  | .opening quote true =>
    if c = quote.char then some (.blockStart quote, [])
    else
      let (mode, tokens) := stepOutside [] c
      some (mode, .text [] false :: tokens)
  | .line quote text => stepLine quote text c
  | .blockStart quote =>
    if c = '\n' then some (.block quote [] 0, []) else stepBlock quote [] 0 c
  | .block quote text quotes => stepBlock quote text quotes c
  | .escape multiline text => (stepEscape multiline text c).map fun mode => (mode, [])
  | .code multiline text missing value =>
    (stepCode multiline text missing value c).map fun mode => (mode, [])
  | .continuation text ended =>
    if c = '\n' then some (.continuation text true, [])
    else if c = ' ' ∨ c = '\t' then some (.continuation text ended, [])
    else if ended then stepBlock .basic text 0 c
    else none

/-- The token that ends with the text; a string must have been closed. -/
def Mode.finish? : Mode → Option (List Token)
  | .outside word => some (wordToken word)
  | .comment => some []
  | .opening _ true => some [.text [] false]
  | .block quote text quotes =>
    if 3 ≤ quotes then
      some [.text (List.replicate (quotes - 3) quote.char ++ text).reverse true]
    else none
  | _ => none

/-- The mode behind a text, and the tokens that end in it. -/
def Mode.run? (mode : Mode) : List Char → Option (Mode × List Token)
  | [] => some (mode, [])
  | c :: rest =>
    (mode.step c).bind fun (next, tokens) =>
      (next.run? rest).map fun (last, later) => (last, tokens ++ later)

/-- A text may be read in two parts. -/
theorem Mode.run?_append (mode : Mode) (a b : List Char) :
    mode.run? (a ++ b) =
      (mode.run? a).bind fun (next, tokens) =>
        (next.run? b).map fun (last, later) => (last, tokens ++ later) := by
  induction a generalizing mode with
  | nil => simp [run?]
  | cons c rest ih =>
    simp only [List.cons_append, run?]
    cases mode.step c with
    | none => rfl
    | some stepped =>
      simp only [Option.bind_some, ih]
      cases stepped.1.run? rest with
      | none => rfl
      | some behind => simp [Function.comp_def, List.append_assoc]

/-- The characters of a word are kept until the word ends. -/
theorem Mode.run?_word {chars : List Char} (h : ∀ c ∈ chars, isWordChar c) (word : List Char) :
    (Mode.outside word).run? chars = some (.outside (chars.reverse ++ word), []) := by
  induction chars generalizing word with
  | nil => simp [run?]
  | cons c rest ih =>
    have hc : isWordChar c := h c (by simp)
    rw [run?, step, stepOutside_wordChar hc, Option.bind_some]
    simp [ih fun d hd => h d (by simp [hd])]

/-- The tokens of a document. -/
def tokens? (text : List Char) : Option (List Token) := do
  let (mode, tokens) ← (Mode.outside []).run? (← plainText? text)
  let last ← mode.finish?
  return tokens ++ last

end Famicom.Toml
