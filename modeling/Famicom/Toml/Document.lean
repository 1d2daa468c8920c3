import Famicom.Toml.Table

/-!
# Documents

A document is read from its tokens line by line: headers say which table is open, assignments add
to it. Between brackets and between braces a line may end wherever a blank may stand, except within
a dotted key. Keys have a greatest number of parts, and values nest to a greatest depth, on which
reading them is recursion; what repeats within one level is bounded by the count of tokens.
-/

namespace Famicom.Toml

/-- The greatest depth of nested arrays and tables, and the greatest number of parts of a key. -/
def maxDepth : Nat := 80

/-- Whether a token is a space or a tab. -/
def Token.isBlank (t : Token) : Bool := t == .space || t == .tab

/-- The tokens behind the blanks. -/
def skipBlanks (tokens : List Token) : List Token := tokens.dropWhile Token.isBlank

/-- The tokens behind the blanks and line ends. -/
def skipLines (tokens : List Token) : List Token :=
  tokens.dropWhile fun t => t.isBlank || t == .newline

/-- The tokens behind the end of a line, which the end of the document is too. -/
def endOfLine? (tokens : List Token) : Option (List Token) :=
  match skipBlanks tokens with
  | [] => some []
  | .newline :: rest => some rest
  | _ => none

/-- Whether a character may stand in a key without quotes. -/
def isKeyChar (c : Char) : Bool := c.isAlphanum || c == '_' || c == '-'

/-- One part of a key, bare or between quotes. -/
def keyPart? : List Token → Option (Key × List Token)
  | .word chars :: rest => if chars.all isKeyChar then some (chars, rest) else none
  | .text chars false :: rest => some (chars, rest)
  | _ => none

/-- The parts of a key behind its first, each behind a dot; there are fewer than `bound`. -/
def moreKeyParts? : (bound : Nat) → List Token → Option (List Key × List Token)
  | 0, _ => none
  | bound + 1, tokens =>
    match skipBlanks tokens with
    | .dot :: rest => do
      let (key, rest) ← keyPart? (skipBlanks rest)
      let (keys, rest) ← moreKeyParts? bound rest
      return (key :: keys, rest)
    | rest => some ([], rest)

/-- A key with dots: the path to a table, and the key within it. -/
def dottedKey? (tokens : List Token) : Option (List Key × Key × List Token) := do
  let (first, rest) ← keyPart? (skipBlanks tokens)
  let (more, rest) ← moreKeyParts? maxDepth rest
  let keys := first :: more
  return (keys.dropLast, keys.getLastD [], rest)

/-- Whether a word is the first token behind the blanks. -/
def wordFollows (tokens : List Token) : Bool :=
  match skipBlanks tokens with
  | .word _ :: _ => true
  | _ => false

/-- The characters of a scalar without quotes. It goes on over dots, and over blanks if a word
follows: a space may stand between a date and a time. -/
def scalarWord : List Token → List Char × List Token
  | [] => ([], [])
  | token :: rest =>
    let before (chars : List Char) (result : List Char × List Token) : List Char × List Token :=
      (chars ++ result.1, result.2)
    match token with
    | .word chars => before chars (scalarWord rest)
    | .dot => before ['.'] (scalarWord rest)
    | .space => if wordFollows rest then before [' '] (scalarWord rest) else ([], .space :: rest)
    | .tab => if wordFollows rest then before ['\t'] (scalarWord rest) else ([], .tab :: rest)
    | token => ([], token :: rest)

/-- A value that has no parts. -/
def scalar? : List Token → Option (Scalar × List Token)
  | .text chars _ :: rest => some (.text chars, rest)
  | tokens => do
    let (chars, rest) := scalarWord tokens
    let scalar ← Scalar.ofWord? chars
    return (scalar, rest)

/-- An assignment: the path and the key, and what is read as its value. `skip` drops what may stand
on either side of the equals sign. -/
def assignment? (skip : List Token → List Token)
    (value? : List Token → Option (Value × List Token)) (tokens : List Token) :
    Option (List Key × Key × Value × List Token) := do
  let (path, key, rest) ← dottedKey? tokens
  match skip rest with
  | .equals :: rest =>
    let (value, rest) ← value? (skip rest)
    return (path, key, value, rest)
  | _ => none

/-- The values of an array behind its bracket, with commas between them. -/
def items? (value? : List Token → Option (Value × List Token)) :
    (bound : Nat) → List Token → Option (List Value × List Token)
  | 0, _ => none
  | bound + 1, tokens =>
    match skipLines tokens with
    | .closeBracket :: rest => some ([], rest)
    | tokens => do
      let (value, rest) ← value? tokens
      match skipLines rest with
      | .closeBracket :: rest => some ([value], rest)
      | .comma :: rest =>
        let (values, rest) ← items? value? bound rest
        return (value :: values, rest)
      | _ => none

/-- The assignments of a table behind its brace, with commas between them. -/
def members? (value? : List Token → Option (Value × List Token)) :
    (bound : Nat) → Table Value → List Token → Option (Table Value × List Token)
  | 0, _, _ => none
  | bound + 1, table, tokens =>
    match skipLines tokens with
    | .closeBrace :: rest => some (table, rest)
    | tokens => do
      let (path, key, value, rest) ← assignment? skipLines value? tokens
      let table ← table.assign? path key value
      match skipLines rest with
      | .closeBrace :: rest => some (table, rest)
      | .comma :: rest => members? value? bound table rest
      | _ => none

/-- A value; arrays and tables between braces may be nested to a depth. -/
def value? : (depth : Nat) → List Token → Option (Value × List Token)
  | depth + 1, .openBracket :: rest => do
    let (items, rest) ← items? (value? depth) (rest.length + 1) rest
    return (.array items, rest)
  | depth + 1, .openBrace :: rest => do
    let (table, rest) ← members? (value? depth) (rest.length + 1) (.empty .inline) rest
    return (.table table, rest)
  | _, tokens => do
    let (scalar, rest) ← scalar? tokens
    return (.scalar scalar, rest)

/-- The part of a document that has been read: its tables, and the path to the open one. -/
structure Document where
  root : Table Value
  position : List Key

namespace Document

/-- A document without a line. -/
def empty : Document := ⟨.empty .header, []⟩

/-- Add an assignment to the open table. -/
def assign? (document : Document) (path : List Key) (key : Key) (value : Value) :
    Option Document := do
  let root ← document.root.change? false (·.assign? path key value) document.position
  return { document with root }

/-- A header in doubled brackets, behind them. -/
def itemHeader? (document : Document) (tokens : List Token) : Option (Document × List Token) := do
  let (path, key, rest) ← dottedKey? tokens
  match skipBlanks rest with
  | .closeBracket :: .closeBracket :: rest =>
    let root ← document.root.openItem? path key
    return (⟨root, path ++ [key]⟩, rest)
  | _ => none

/-- A header in brackets, behind the first. -/
def tableHeader? (document : Document) (tokens : List Token) : Option (Document × List Token) := do
  let (path, key, rest) ← dottedKey? tokens
  match skipBlanks rest with
  | .closeBracket :: rest =>
    let root ← document.root.openTable? path key
    return (⟨root, path ++ [key]⟩, rest)
  | _ => none

/-- A line that is not empty, up to its end. -/
def line? (document : Document) (tokens : List Token) : Option (Document × List Token) :=
  match tokens with
  | .openBracket :: .openBracket :: rest => document.itemHeader? rest
  | .openBracket :: rest => document.tableHeader? rest
  | tokens => do
    let (path, key, value, rest) ← assignment? skipBlanks (value? maxDepth) tokens
    return (← document.assign? path key value, rest)

/-- The document with the lines of some tokens. -/
def lines? : (bound : Nat) → Document → List Token → Option Document
  | 0, _, _ => none
  | bound + 1, document, tokens =>
    match skipLines tokens with
    | [] => some document
    | tokens => do
      let (document, rest) ← document.line? tokens
      lines? bound document (← endOfLine? rest)

end Document

/-- The table that a document is. -/
def read? (text : List Char) : Option (Table Value) := do
  let tokens ← tokens? text
  let document ← Document.empty.lines? (tokens.length + 1) tokens
  return document.root

end Famicom.Toml
