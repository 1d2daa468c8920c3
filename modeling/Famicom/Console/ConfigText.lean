import Famicom.Console.Config
import Famicom.Toml.Document
import Famicom.Toml.Section

/-!
# The text of a configuration

A configuration is written as a document with two sections, `timing` and `cpu`. It is read from any
document: a field that is missing has its default, and a key that is no field may have any value
that can be read. A section may also be an array, which holds the fields in their order and of which
nothing else is read, and a name may be given as the only key of a table, with nothing for its
value.
-/

namespace Famicom

/-- The name of a video standard. -/
def VideoStandard.name : VideoStandard → List Char
  | .ntsc => "Ntsc".toList
  | .pal => "Pal".toList

/-- The video standard with a name. -/
def VideoStandard.ofName? (name : List Char) : Option VideoStandard :=
  if name = VideoStandard.ntsc.name then some .ntsc
  else if name = VideoStandard.pal.name then some .pal
  else none

/-- The name of what an opcode that stops the processor leads to. -/
def JamBehavior.name : JamBehavior → List Char
  | .reset => "reset".toList
  | .halt => "halt".toList

/-- What an opcode that stops the processor leads to, by its name. -/
def JamBehavior.ofName? (name : List Char) : Option JamBehavior :=
  if name = JamBehavior.reset.name then some .reset
  else if name = JamBehavior.halt.name then some .halt
  else none

/-- The values of the fields with some names, of which each may be missing. The other entries must
be readable. -/
def Toml.Table.fields? (t : Toml.Table Toml.Value) (names : List Toml.Key) :
    Option (List (Option Toml.Value)) :=
  if t.entries.all fun (key, value) => names.contains key || value.isReadable then
    some (names.map t.find?)
  else none

namespace Toml.Value

/-- The values of the fields of a section, of which each may be missing. A date has no fields. -/
def fields? (names : List Key) : Value → Option (List (Option Value))
  | .table t => t.fields? names
  | .array items => some ((List.range names.length).map fun place => items[place]?)
  | .tables closed last =>
    let items := closed ++ [last]
    some ((List.range names.length).map fun place => (items[place]?).map .table)
  | .scalar (.moment _) => some (names.map fun _ => none)
  | .scalar _ => none

/-- Whether a value holds nothing. -/
def isEmpty : Value → Bool
  | .table t => t.entries.isEmpty
  | .array items => items.isEmpty
  | _ => false

/-- A name: a string, or the only key of a table. -/
def name? : Value → Option (List Char)
  | .scalar (.text chars) => some chars
  | .table ⟨_, [(key, value)]⟩ => if value.isEmpty then some key else none
  | _ => none

/-- A real number; a whole number of at most 64 bits, with or without a sign, is one too. -/
def real? : Value → Option ExtendedDecimal
  | .scalar (.real x) => some x
  | .scalar (.integer n) => if fits 64 n then some (.finite (.ofInt n)) else none
  | _ => none

/-- A count that fits 32 bits. -/
def count? : Value → Option UInt32
  | .scalar (.integer (.ofNat n)) => if n < UInt32.size then some (UInt32.ofNat n) else none
  | _ => none

end Toml.Value

/-- What is read of a field, or its default if the field is missing. -/
def readField? {α : Type} (read? : Toml.Value → Option α) (default : α) :
    Option Toml.Value → Option α
  | none => some default
  | some value => read? value

variable {T : Type} [Time T] [DecimalNotation T]

namespace Timing

/-- The section of a timing. -/
def toSection (timing : Timing T) : Toml.Section where
  name := "timing".toList
  entries :=
    [("mode".toList, .text timing.standard.name),
      ("pause_threshold_ms".toList, .real (DecimalNotation.toDecimal timing.pauseThreshold)),
      ("max_catch_up_frames".toList, .integer timing.maxCatchUp.toNat)]

/-- The names of the fields of a timing, in their order. -/
def fieldNames : List Toml.Key :=
  ["mode".toList, "pause_threshold_ms".toList, "max_catch_up_frames".toList]

/-- The timing in a section. -/
def ofValue? (value : Toml.Value) : Option (Timing T) := do
  match ← value.fields? fieldNames with
  | [mode, threshold, frames] =>
    let default : Timing T := .default
    let standard ← readField? (fun v => v.name?.bind VideoStandard.ofName?) default.standard mode
    let pauseThreshold ← readField? (fun v => v.real?.bind DecimalNotation.ofDecimal?)
      default.pauseThreshold threshold
    let maxCatchUp ← readField? Toml.Value.count? default.maxCatchUp frames
    return { standard, pauseThreshold, maxCatchUp }
  | _ => none

end Timing

namespace JamBehavior

/-- The section of the processor. -/
def toSection (jam : JamBehavior) : Toml.Section where
  name := "cpu".toList
  entries := [("jam".toList, .text jam.name)]

/-- What the section of the processor says. -/
def ofValue? (value : Toml.Value) : Option JamBehavior := do
  match ← value.fields? ["jam".toList] with
  | [jam] => readField? (fun v => v.name?.bind ofName?) .reset jam
  | _ => none

end JamBehavior

namespace Config

/-- The configuration in a document. -/
def ofTable? (table : Toml.Table Toml.Value) : Option (Config T) := do
  match ← table.fields? ["timing".toList, "cpu".toList] with
  | [timing, cpu] =>
    let timing ← readField? Timing.ofValue? .default timing
    let jam ← readField? JamBehavior.ofValue? .reset cpu
    return { timing, jam }
  | _ => none

/-- The sections of a configuration. -/
def toSections (config : Config T) : List Toml.Section :=
  [config.timing.toSection, config.jam.toSection]

/-- The configuration that a text describes. -/
def ofText? (text : String) : Option (Config T) := do
  ofTable? (← Toml.read? text.toList)

/-- The text that describes a configuration. -/
def toText (config : Config T) : String := .ofList (Toml.Section.join config.toSections)

end Config

end Famicom
