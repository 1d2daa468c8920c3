import Famicom.Cartridge.Nrom

/-!
# Boards chosen at run time

A host that learns only at run time what is in the slot needs one type for all of it.
-/

namespace Famicom

/-- What may be in the slot. -/
inductive Board where
  | empty
  | nrom (board : Nrom)

instance : Cartridge Board where
  cpuRead slot address :=
    match slot with
    | .empty => (0, .empty)
    | .nrom board => (board.cpuLoad address, .nrom board)
  cpuWrite slot address value :=
    match slot with
    | .empty => .empty
    | .nrom board => .nrom (board.cpuStore address value)
  ppuRead slot address :=
    match slot with
    | .empty => (0, .empty)
    | .nrom board => (board.ppuLoad address, .nrom board)
  ppuWrite slot address value :=
    match slot with
    | .empty => .empty
    | .nrom board => .nrom (board.ppuStore address value)
  ciramA10 slot address :=
    match slot with
    | .empty => Mirroring.horizontal.ciramA10 address
    | .nrom board => board.mirroring.ciramA10 address
  ciramEnabled slot _ :=
    match slot with
    | .empty => true
    | .nrom board => !board.fourScreen
  irqPending _ := false

end Famicom
