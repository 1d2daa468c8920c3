import Famicom.Console.ConfigText

/-!
# Configuration files

A file that need not exist, and whose text need not describe a configuration. Loading never writes:
a host that falls back on the default configuration finds the file as it was.
-/

namespace Famicom

/-- Why a file has no configuration. -/
inductive ConfigError where
  /-- There is no file. -/
  | notFound
  /-- The text describes no configuration. -/
  | invalidData
  deriving DecidableEq, Repr

/-- A file: its text, if it exists. -/
structure ConfigFile where
  text? : Option String
  deriving DecidableEq, Repr

variable {T : Type} [Time T] [DecimalNotation T]

/-- The configuration that a text describes. -/
def Config.ofText (text : String) : Except ConfigError (Config T) :=
  match ofText? text with
  | some config => .ok config
  | none => .error .invalidData

namespace ConfigFile

/-- A file that holds a configuration. -/
def save (config : Config T) : ConfigFile := ⟨some config.toText⟩

/-- The configuration in a file. -/
def load (file : ConfigFile) : Except ConfigError (Config T) :=
  match file.text? with
  | some text => Config.ofText text
  | none => .error .notFound

/-- The configuration in a file, or the default one if there is none. -/
def loadOrDefault (file : ConfigFile) : Config T :=
  match (file.load : Except ConfigError (Config T)) with
  | .ok config => config
  | .error _ => .default

end ConfigFile

end Famicom
