import Famicom.Cartridge.Basic
import Famicom.Memory

/-!
# The NROM board

A board without bank switching. The processor sees eight kilobytes of RAM from `$6000` and the
program image from `$8000`, repeated if it is shorter. The picture unit sees the pattern image, or
eight kilobytes of RAM if there is none, and on a four-screen board the nametables too.
-/

namespace Famicom

/-- The pattern memory of a board. -/
inductive PatternMemory where
  | rom (chip : Rom)
  | ram (chip : Memory 0x2000)

namespace PatternMemory

/-- The memory that holds an image; RAM in place of an empty one. -/
def ofImage (image : Array UInt8) : PatternMemory :=
  match Rom.ofImage? image with
  | some chip => .rom chip
  | none => .ram (Memory.filled 0x2000 0)

/-- The byte at an address. -/
def load (memory : PatternMemory) (address : Nat) : UInt8 :=
  match memory with
  | .rom chip => chip.load address
  | .ram chip => chip.load address

/-- Change the byte at an address; an image does not change. -/
def store (memory : PatternMemory) (address : Nat) (value : UInt8) : PatternMemory :=
  match memory with
  | .rom chip => .rom chip
  | .ram chip => .ram (chip.store address value)

end PatternMemory

/-- An NROM board. -/
structure Nrom where
  program : Rom
  programRam : Memory 0x2000
  pattern : PatternMemory
  mirroring : Mirroring
  /-- In use on four-screen boards only. -/
  nametables : Memory 0x1000

namespace Nrom

/-- A board with a program image and a pattern image, either of which may be empty. -/
def new (program pattern : Array UInt8) (mirroring : Mirroring) : Nrom where
  program := Rom.ofImage program
  programRam := Memory.filled 0x2000 0
  pattern := PatternMemory.ofImage pattern
  mirroring := mirroring
  nametables := Memory.filled 0x1000 0

/-- Whether the board has nametable memory of its own. -/
def fourScreen (board : Nrom) : Bool := board.mirroring == .fourScreen

/-- The byte that the processor reads. -/
def cpuLoad (board : Nrom) (address : UInt16) : UInt8 :=
  if 0x8000 ≤ address then board.program.load (address - 0x8000).toNat
  else if 0x6000 ≤ address then board.programRam.load address.toNat
  else 0

/-- A write by the processor. -/
def cpuStore (board : Nrom) (address : UInt16) (value : UInt8) : Nrom :=
  if 0x6000 ≤ address ∧ address < 0x8000 then
    { board with programRam := board.programRam.store address.toNat value }
  else board

/-- The byte that the picture unit reads. -/
def ppuLoad (board : Nrom) (address : UInt16) : UInt8 :=
  if address < 0x2000 then board.pattern.load address.toNat
  else if address < 0x3F00 ∧ board.fourScreen then board.nametables.load address.toNat
  else 0

/-- A write by the picture unit. -/
def ppuStore (board : Nrom) (address : UInt16) (value : UInt8) : Nrom :=
  if address < 0x2000 then { board with pattern := board.pattern.store address.toNat value }
  else if address < 0x3F00 ∧ board.fourScreen then
    { board with nametables := board.nametables.store address.toNat value }
  else board

end Nrom

instance : Cartridge Nrom where
  cpuRead board address := (board.cpuLoad address, board)
  cpuWrite := Nrom.cpuStore
  ppuRead board address := (board.ppuLoad address, board)
  ppuWrite := Nrom.ppuStore
  ciramA10 board address := board.mirroring.ciramA10 address
  ciramEnabled board _ := !board.fourScreen
  irqPending _ := false

end Famicom
