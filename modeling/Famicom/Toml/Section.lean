import Famicom.Toml.Scalar

/-!
# Sections

The documents that are written: sections with a header each, whose entries are scalars. A line
holds a header or an entry, and an empty line stands between two sections.
-/

namespace Famicom.Toml

/-- A header and the entries below it. -/
structure Section where
  name : List Char
  entries : List (List Char × Scalar)
  deriving DecidableEq, Repr

/-- The notation of a real number. Finite ones are written in positional notation. -/
def realText : ExtendedDecimal → List Char
  | .finite d => d.positional
  | .infinite false => "inf".toList
  | .infinite true => "-inf".toList
  | .undefined => "nan".toList

/-- The notation of a whole number. -/
def integerText (n : Int) : List Char :=
  if n < 0 then '-' :: Decimal.digitsOf n.natAbs else Decimal.digitsOf n.natAbs

/-- The notation of a scalar. A string is written as it is, so it must need no escapes. -/
def Scalar.toText : Scalar → List Char
  | .text chars => '"' :: chars ++ ['"']
  | .integer n => integerText n
  | .real x => realText x
  | .boolean b => if b then "true".toList else "false".toList
  | .moment written | .unreadable written => written

/-- The line of an entry. -/
def entryText (key : List Char) (value : Scalar) : List Char :=
  key ++ " = ".toList ++ value.toText ++ ['\n']

namespace Section

/-- The lines of a section. -/
def toText (s : Section) : List Char :=
  '[' :: s.name ++ "]\n".toList ++ s.entries.flatMap fun (key, value) => entryText key value

/-- The lines of sections, with an empty line between them. -/
def join (sections : List Section) : List Char :=
  List.intercalate ['\n'] (sections.map toText)

end Section

end Famicom.Toml
