import Mathlib.Logic.Basic
import Famicom.Cartridge.Board
import Famicom.Proofs.Ppu.Checked

/-!
# The cells behind the picture unit's address space

Most addresses of the picture unit name a memory cell, and most cells have several addresses: the
pattern memory repeats, the nametables are wired together, and so are palette entries. Through
whatever address a byte is written, it is read through all that name the same cell, and nothing else
is changed.

* `Board.cellAt`: the cell that an address names, if there is one.
* `Ppu.readVram_cell`: what a read yields.
* `Ppu.byte?_writeVram`: what a write leaves in every cell.
* `Ppu.readVram_writeVram`: what a read yields after a write.
-/

namespace Famicom

/-- A memory cell behind the address space of the picture unit. -/
inductive VramCell where
  /-- In the pattern memory of the board. -/
  | pattern (offset : Nat)
  /-- In the console's nametable memory. -/
  | ciram (offset : Nat)
  /-- In the nametable memory of the board. -/
  | nametable (offset : Nat)
  /-- In palette memory. -/
  | palette (entry : Nat)
  deriving DecidableEq, Repr

/-- Which of the console's two nametables stands behind one of the four. -/
def Mirroring.bank : Mirroring → Nat → Nat
  | .horizontal, table => table / 2
  | .vertical, table | .fourScreen, table => table % 2
  | .singleLower, _ => 0
  | .singleUpper, _ => 1

namespace PatternMemory

/-- The bytes of a pattern memory. -/
def bytes : PatternMemory → Array UInt8
  | .rom chip => chip.image
  | .ram chip => chip.cells.toArray

/-- Whether a pattern memory can be written. -/
def isRam : PatternMemory → Bool
  | .rom _ => false
  | .ram _ => true

/-- A pattern memory repeats. -/
theorem getElem?_bytes (memory : PatternMemory) (address : Nat) :
    memory.bytes[address % memory.bytes.size]? = some (memory.load address) := by
  cases memory with
  | rom chip => exact Array.getElem?_eq_getElem (Nat.mod_lt _ chip.size_pos)
  | ram chip =>
    have hsize : (PatternMemory.ram chip).bytes.size = 0x2000 := chip.cells.size_toArray
    have hlt : address % 0x2000 < chip.cells.toArray.size := by
      rw [chip.cells.size_toArray]
      exact Nat.mod_lt _ (by decide)
    rw [hsize]
    exact Array.getElem?_eq_getElem hlt

@[simp] theorem size_bytes_store (memory : PatternMemory) (address : Nat) (value : UInt8) :
    (memory.store address value).bytes.size = memory.bytes.size := by
  cases memory with
  | rom chip => rfl
  | ram chip =>
    exact (chip.store address value).cells.size_toArray.trans chip.cells.size_toArray.symm

@[simp] theorem isRam_store (memory : PatternMemory) (address : Nat) (value : UInt8) :
    (memory.store address value).isRam = memory.isRam := by
  cases memory <;> rfl

/-- Only a memory that can be written takes a byte. -/
theorem getElem?_bytes_store (memory : PatternMemory) (address i : Nat) (value : UInt8) :
    (memory.store address value).bytes[i]? =
      if memory.isRam ∧ address % memory.bytes.size = i then some value else memory.bytes[i]? := by
  cases memory with
  | rom chip => exact (if_neg fun h => Bool.false_ne_true h.1).symm
  | ram chip =>
    have hsize : (PatternMemory.ram chip).bytes.size = 0x2000 := chip.cells.size_toArray
    have hlt : address % 0x2000 < chip.cells.toArray.size := by
      rw [chip.cells.size_toArray]
      exact Nat.mod_lt _ (by decide)
    show (chip.cells.toArray.set (address % 0x2000) value hlt)[i]? = _
    rw [Array.getElem?_set, hsize]
    simp only [isRam, true_and]
    rfl

end PatternMemory

namespace Memory

variable {n : Nat}

theorem getElem?_cells (memory : Memory n) (address : Nat) :
    memory.cells[address % n]? = some (memory.load address) :=
  Vector.getElem?_eq_getElem (Nat.mod_lt _ memory.size_pos)

theorem getElem?_cells_store (memory : Memory n) (address i : Nat) (value : UInt8) :
    (memory.store address value).cells[i]? =
      if address % n = i then some value else memory.cells[i]? := by
  have hlt := Nat.mod_lt address memory.size_pos
  show (memory.cells.set (address % n) value hlt)[i]? = _
  rw [Vector.getElem?_set]

end Memory

namespace Board

/-- How the nametables are wired. Without a board, the upper two are one, and so are the lower. -/
def mirroring : Board → Mirroring
  | .empty => .horizontal
  | .nrom board => board.mirroring

/-- The pattern memory of a board. -/
def pattern? : Board → Option PatternMemory
  | .empty => none
  | .nrom board => some board.pattern

/-- The nametable memory of a board. -/
def nametables? : Board → Option (Memory 0x1000)
  | .empty => none
  | .nrom board => some board.nametables

/-- The cell that an address names. -/
def cellAt (slot : Board) (address : UInt16) : Option VramCell :=
  let place := address.toNat % 0x4000
  if place < 0x2000 then slot.pattern?.map fun memory => .pattern (place % memory.bytes.size)
  else if place < 0x3F00 then
    let table := place / 0x400 % 4
    some (if slot.mirroring = .fourScreen then .nametable (0x400 * table + place % 0x400)
      else .ciram (0x400 * slot.mirroring.bank table + place % 0x400))
  else
    let entry := place % 32
    some (.palette (if entry % 4 = 0 then entry % 16 else entry))

end Board

namespace VramCell

/-- The byte in a cell, if there is such a cell. -/
def byte? (ppu : Ppu) (slot : Board) : VramCell → Option UInt8
  | pattern offset => slot.pattern?.bind fun memory => memory.bytes[offset]?
  | ciram offset => ppu.ciram.cells[offset]?
  | nametable offset => slot.nametables?.bind fun memory => memory.cells[offset]?
  | palette entry => ppu.palette.cells[entry]?

/-- Whether a cell can be written. -/
def isWritable (slot : Board) : VramCell → Bool
  | pattern _ => slot.pattern?.any PatternMemory.isRam
  | _ => true

/-- What a cell keeps of a byte that is written to it: palette entries have six bits. -/
def kept : VramCell → UInt8 → UInt8
  | palette _, value => value &&& 0x3F
  | _, value => value

/-- What is read of the byte in a cell: colours may be reduced to the grey column. -/
def shown (mask : Mask) : VramCell → UInt8 → UInt8
  | palette _, value => if mask.grayscale then value &&& 0x3F &&& 0x30 else value &&& 0x3F
  | _, value => value

/-- Of a byte that is written to a cell, all that is read again is kept. -/
theorem shown_kept (mask : Mask) (cell : VramCell) (value : UInt8) :
    cell.shown mask (cell.kept value) = cell.shown mask value := by
  cases cell with
  | palette entry =>
    have hkept : value &&& 0x3F &&& 0x3F = value &&& 0x3F := by rw [UInt8.and_assoc]; rfl
    simp only [shown, kept, hkept]
  | pattern _ | ciram _ | nametable _ => rfl

end VramCell

/-- The cell that a write at an address changes, if there is one. -/
def Board.writableAt (slot : Board) (address : UInt16) : Option VramCell :=
  (slot.cellAt address).filter (·.isWritable slot)

theorem Board.writableAt_eq_some_iff {slot : Board} {address : UInt16} {cell : VramCell} :
    slot.writableAt address = some cell ↔
      slot.cellAt address = some cell ∧ cell.isWritable slot :=
  Option.filter_eq_some_iff

/-! ## The wiring -/

theorem Mirroring.toNat_ciramA10 (mirroring : Mirroring) (address : UInt16) :
    (mirroring.ciramA10 address).toNat = mirroring.bank (address.toNat / 0x400 % 4) := by
  have hbit (n : UInt16) : (n % 2 == 1).toNat = n.toNat % 2 := by
    have hn : (n % 2).toNat = n.toNat % 2 := UInt16.toNat_mod n 2
    rcases Nat.mod_two_eq_zero_or_one n.toNat with hzero | hone
    · have hfalse : n % 2 = 0 := UInt16.toNat_inj.mp (hn.trans hzero)
      rw [hfalse, hzero]
      rfl
    · have htrue : n % 2 = 1 := UInt16.toNat_inj.mp (hn.trans hone)
      rw [htrue, hone]
      rfl
  cases mirroring with
  | horizontal | vertical | fourScreen =>
    refine (hbit _).trans ?_
    simp only [bank, UInt16.toNat_div, UInt16.reduceToNat]
    omega
  | singleLower | singleUpper => rfl

namespace Ppu

theorem toNat_nametableAddress (address : UInt16) :
    (nametableAddress address).toNat = 0x2000 + address.toNat % 0x1000 := by
  simp only [nametableAddress, UInt16.toNat_add, UInt16.toNat_mod, UInt16.reduceToNat]
  omega

theorem nametableAddress_place (address : UInt16) :
    nametableAddress (address % 0x4000) = nametableAddress address := by
  apply UInt16.toNat_inj.mp
  rw [toNat_nametableAddress, toNat_nametableAddress, UInt16.toNat_mod]
  simp only [UInt16.reduceToNat]
  omega

theorem ciramIndex_eq (slot : Board) (address : UInt16) :
    ciramIndex slot address =
      0x400 * slot.mirroring.bank (address.toNat / 0x400 % 4) + address.toNat % 0x400 := by
  have hline : Cartridge.ciramA10 slot address = slot.mirroring.ciramA10 address := by
    cases slot <;> rfl
  have hbank := slot.mirroring.toNat_ciramA10 address
  unfold ciramIndex
  rw [hline, ← hbank, UInt16.toNat_mod]
  cases slot.mirroring.ciramA10 address <;> rfl

theorem paletteIndex_eq (place : Nat) :
    paletteIndex place = if place % 32 % 4 = 0 then place % 32 % 16 else place % 32 := by
  unfold paletteIndex
  dsimp only
  split <;> split <;> omega

end Ppu

/-- The console's nametable memory answers unless the board has its own for all four. -/
theorem Board.ciramEnabled_eq (slot : Board) (address : UInt16) :
    Cartridge.ciramEnabled slot address = !(slot.mirroring == .fourScreen) := by
  cases slot <;> rfl

theorem mod_0x40_eq (value : UInt8) : value % 0x40 = value &&& 0x3F := by
  revert value
  exact Byte.forall_of_fin (by decide +kernel)

/-! ## The three ranges -/

namespace Ppu

variable (ppu : Ppu) (slot : Board) {address : UInt16}

theorem place_lt_iff (bound : UInt16) :
    address % 0x4000 < bound ↔ address.toNat % 0x4000 < bound.toNat := by
  simp only [UInt16.lt_iff_toNat_lt, UInt16.toNat_mod, UInt16.reduceToNat]

section Pattern

variable (h : address.toNat % 0x4000 < 0x2000)
include h

theorem cellAt_patternRange :
    slot.cellAt address = slot.pattern?.map fun memory =>
      .pattern (address.toNat % 0x4000 % memory.bytes.size) :=
  if_pos h

theorem readVram_patternRange :
    ppu.readVram slot address = Cartridge.ppuRead slot (address % 0x4000) :=
  if_pos ((place_lt_iff _).mpr h)

theorem writeVram_patternRange (value : UInt8) :
    ppu.writeVram slot address value =
      (ppu, Cartridge.ppuWrite slot (address % 0x4000) value) :=
  if_pos ((place_lt_iff _).mpr h)

end Pattern

section Nametable

variable (h : 0x2000 ≤ address.toNat % 0x4000) (hlt : address.toNat % 0x4000 < 0x3F00)
include h hlt

theorem cellAt_tables :
    slot.cellAt address =
      some (if slot.mirroring = .fourScreen then
          .nametable (0x400 * (address.toNat / 0x400 % 4) + address.toNat % 0x400)
        else
          .ciram (0x400 * slot.mirroring.bank (address.toNat / 0x400 % 4) +
            address.toNat % 0x400)) := by
  have htable : address.toNat % 0x4000 / 0x400 % 4 = address.toNat / 0x400 % 4 := by omega
  have hoffset : address.toNat % 0x4000 % 0x400 = address.toNat % 0x400 := by omega
  simp only [Board.cellAt, if_neg (Nat.not_lt.mpr h), if_pos hlt, htable, hoffset]

theorem cellAt_nametableRange :
    slot.cellAt address =
      some (if slot.mirroring = .fourScreen then .nametable (address.toNat % 0x1000)
        else .ciram (ciramIndex slot (nametableAddress address))) := by
  have hboard : 0x400 * (address.toNat / 0x400 % 4) + address.toNat % 0x400 =
      address.toNat % 0x1000 := by omega
  have htable : (0x2000 + address.toNat % 0x1000) / 0x400 % 4 = address.toNat / 0x400 % 4 := by
    omega
  have hoffset : (0x2000 + address.toNat % 0x1000) % 0x400 = address.toNat % 0x400 := by omega
  rw [cellAt_tables slot h hlt, hboard, ciramIndex_eq, toNat_nametableAddress, htable, hoffset]

theorem readVram_nametableRange :
    ppu.readVram slot address =
      if slot.mirroring = .fourScreen then
        Cartridge.ppuRead slot (nametableAddress address)
      else (ppu.ciram.load (ciramIndex slot (nametableAddress address)), slot) := by
  simp only [readVram, place_lt_iff, UInt16.reduceToNat, if_neg (Nat.not_lt.mpr h), if_pos hlt,
    Board.ciramEnabled_eq, nametableAddress_place]
  cases slot.mirroring <;> rfl

theorem writeVram_nametableRange (value : UInt8) :
    ppu.writeVram slot address value =
      if slot.mirroring = .fourScreen then
        (ppu, Cartridge.ppuWrite slot (nametableAddress address) value)
      else ({ ppu with
        ciram := ppu.ciram.store (ciramIndex slot (nametableAddress address)) value },
          slot) := by
  simp only [writeVram, place_lt_iff, UInt16.reduceToNat, if_neg (Nat.not_lt.mpr h), if_pos hlt,
    Board.ciramEnabled_eq, nametableAddress_place]
  cases slot.mirroring <;> rfl

end Nametable

section Palette

variable (h : 0x3F00 ≤ address.toNat % 0x4000)
include h

theorem cellAt_paletteRange :
    slot.cellAt address = some (.palette (paletteIndex address.toNat)) := by
  have hpattern : ¬ address.toNat % 0x4000 < 0x2000 := by omega
  have hentry : address.toNat % 0x4000 % 32 = address.toNat % 32 := by omega
  simp only [Board.cellAt, if_neg hpattern, if_neg (Nat.not_lt.mpr h), paletteIndex_eq, hentry]

theorem readVram_paletteRange :
    ppu.readVram slot address =
      ((VramCell.palette 0).shown ppu.mask (ppu.palette.load (paletteIndex address.toNat)),
        slot) := by
  have hpattern : ¬ address.toNat % 0x4000 < 0x2000 := by omega
  have hentry : (address % 0x4000).toUInt8.toNat % 32 = address.toNat % 32 := by
    rw [UInt16.toNat_toUInt8, UInt16.toNat_mod]
    simp only [UInt16.reduceToNat]
    omega
  have hindex : paletteIndex (address % 0x4000).toUInt8.toNat = paletteIndex address.toNat := by
    rw [paletteIndex_eq, paletteIndex_eq, hentry]
  simp only [readVram, place_lt_iff, UInt16.reduceToNat, if_neg hpattern,
    if_neg (Nat.not_lt.mpr h), paletteColor, hindex, mod_0x40_eq, VramCell.shown]

theorem writeVram_paletteRange (value : UInt8) :
    ppu.writeVram slot address value =
      ({ ppu with
        palette := ppu.palette.store (paletteIndex address.toNat) (value &&& 0x3F) },
          slot) := by
  have hpattern : ¬ address.toNat % 0x4000 < 0x2000 := by omega
  have hentry : (address % 0x4000).toNat % 32 = address.toNat % 32 := by
    rw [UInt16.toNat_mod]
    simp only [UInt16.reduceToNat]
    omega
  have hindex : paletteIndex (address % 0x4000).toNat = paletteIndex address.toNat := by
    rw [paletteIndex_eq, paletteIndex_eq, hentry]
  simp only [writeVram, place_lt_iff, UInt16.reduceToNat, if_neg hpattern,
    if_neg (Nat.not_lt.mpr h), hindex, mod_0x40_eq]

end Palette

/-- Palette entries have addresses from `$3F00` on. -/
theorem place_of_palette {entry : Nat} (h : slot.cellAt address = some (.palette entry)) :
    0x3F00 ≤ address.toNat % 0x4000 ∧ paletteIndex address.toNat = entry := by
  rcases Nat.lt_or_ge (address.toNat % 0x4000) 0x2000 with hpattern | hpattern
  · rw [cellAt_patternRange slot hpattern] at h
    obtain ⟨memory, -, hcell⟩ := Option.map_eq_some_iff.mp h
    nomatch hcell
  rcases Nat.lt_or_ge (address.toNat % 0x4000) 0x3F00 with hnametable | hpalette
  · rw [cellAt_tables slot hpattern hnametable, Option.some_inj] at h
    split at h
    · nomatch h
    · nomatch h
  · rw [cellAt_paletteRange slot hpalette, Option.some_inj, VramCell.palette.injEq] at h
    exact ⟨hpalette, h⟩

end Ppu

/-! ## Reads and writes of a cell -/

namespace Ppu

variable (ppu : Ppu) (slot : Board) {address : UInt16}

/-- The nametables of a board lie from `$2000` on. -/
theorem nametableAddress_range (address : UInt16) :
    ¬ nametableAddress address < 0x2000 ∧ nametableAddress address < 0x3F00 := by
  simp only [UInt16.lt_iff_toNat_lt, toNat_nametableAddress, UInt16.reduceToNat]
  omega

theorem nametableAddress_mod (address : UInt16) :
    (nametableAddress address).toNat % 0x1000 = address.toNat % 0x1000 := by
  rw [toNat_nametableAddress]
  omega

theorem ppuLoad_nametableAddress {board : Nrom} (hfour : board.mirroring = .fourScreen)
    (address : UInt16) :
    board.ppuLoad (nametableAddress address) =
      board.nametables.load (nametableAddress address).toNat := by
  have hrange := nametableAddress_range address
  rw [Nrom.ppuLoad, if_neg hrange.1, if_pos ⟨hrange.2, beq_iff_eq.mpr hfour⟩]

theorem ppuWrite_nametableAddress {board : Nrom} (hfour : board.mirroring = .fourScreen)
    (address : UInt16) (value : UInt8) :
    Cartridge.ppuWrite (Board.nrom board) (nametableAddress address) value =
      Board.nrom { board with
        nametables := board.nametables.store (nametableAddress address).toNat value } := by
  have hrange := nametableAddress_range address
  show Board.nrom (board.ppuStore _ _) = _
  rw [Nrom.ppuStore, if_neg hrange.1, if_pos ⟨hrange.2, beq_iff_eq.mpr hfour⟩]

/-- Where there is no cell, a read yields zero. -/
theorem readVram_none (h : slot.cellAt address = none) : ppu.readVram slot address = (0, slot) := by
  rcases Nat.lt_or_ge (address.toNat % 0x4000) 0x2000 with hpattern | hpattern
  · rw [cellAt_patternRange slot hpattern, Option.map_eq_none_iff] at h
    rw [readVram_patternRange ppu slot hpattern]
    cases slot with
    | empty => rfl
    | nrom board => nomatch h
  rcases Nat.lt_or_ge (address.toNat % 0x4000) 0x3F00 with hnametable | hpalette
  · rw [cellAt_nametableRange slot hpattern hnametable] at h
    nomatch h
  · rw [cellAt_paletteRange slot hpalette] at h
    nomatch h

/-- A read yields the byte in the cell. -/
theorem readVram_cell {cell : VramCell} (h : slot.cellAt address = some cell) :
    ∃ byte, cell.byte? ppu slot = some byte ∧
      ppu.readVram slot address = (cell.shown ppu.mask byte, slot) := by
  rcases Nat.lt_or_ge (address.toNat % 0x4000) 0x2000 with hpattern | hpattern
  · rw [cellAt_patternRange slot hpattern] at h
    rw [readVram_patternRange ppu slot hpattern]
    cases slot with
    | empty => nomatch h
    | nrom board =>
      obtain rfl := Option.some.inj h
      have hplace : (address % 0x4000).toNat = address.toNat % 0x4000 := UInt16.toNat_mod ..
      refine ⟨board.pattern.load (address.toNat % 0x4000), board.pattern.getElem?_bytes _, ?_⟩
      show (board.ppuLoad (address % 0x4000), Board.nrom board) = _
      rw [Nrom.ppuLoad, if_pos ((place_lt_iff _).mpr hpattern), hplace]
      rfl
  rcases Nat.lt_or_ge (address.toNat % 0x4000) 0x3F00 with hnametable | hpalette
  · rw [cellAt_nametableRange slot hpattern hnametable, Option.some_inj] at h
    rw [readVram_nametableRange ppu slot hpattern hnametable]
    by_cases hfour : slot.mirroring = .fourScreen
    · rw [if_pos hfour] at h ⊢
      subst h
      cases slot with
      | empty => nomatch hfour
      | nrom board =>
        refine ⟨_, ?_, congrArg (·, _) (ppuLoad_nametableAddress hfour _)⟩
        have hcell := board.nametables.getElem?_cells (nametableAddress address).toNat
        rwa [nametableAddress_mod] at hcell
    · rw [if_neg hfour] at h ⊢
      subst h
      exact ⟨_, Checked.load_eq ppu.ciram (Checked.ciramIndex_eq slot _).2, rfl⟩
  · rw [cellAt_paletteRange slot hpalette, Option.some_inj] at h
    subst h
    exact ⟨_, Checked.load_eq ppu.palette (paletteIndex_spec address.toNat).1,
      readVram_paletteRange ppu slot hpalette⟩

/-- What a write leaves in every cell. -/
theorem byte?_writeVram (address : UInt16) (value : UInt8) (cell : VramCell) :
    cell.byte? (ppu.writeVram slot address value).1 (ppu.writeVram slot address value).2 =
      if slot.writableAt address = some cell then some (cell.kept value)
      else cell.byte? ppu slot := by
  rcases Nat.lt_or_ge (address.toNat % 0x4000) 0x2000 with hpattern | hpattern
  · rw [writeVram_patternRange ppu slot hpattern, Board.writableAt,
      cellAt_patternRange slot hpattern]
    cases slot with
    | empty => exact (if_neg nofun).symm
    | nrom board =>
      have hstore : Cartridge.ppuWrite (Board.nrom board) (address % 0x4000) value =
          Board.nrom { board with
            pattern := board.pattern.store (address.toNat % 0x4000) value } := by
        have hplace : (address % 0x4000).toNat = address.toNat % 0x4000 := UInt16.toNat_mod ..
        rw [← hplace]
        exact congrArg Board.nrom (if_pos ((place_lt_iff _).mpr hpattern))
      rw [hstore]
      cases cell with
      | pattern offset =>
        refine (board.pattern.getElem?_bytes_store _ _ _).trans ?_
        refine if_congr ?_ rfl rfl
        simp [Board.pattern?, VramCell.isWritable, Option.filter_eq_some_iff, and_comm]
      | ciram _ | nametable _ | palette _ =>
        refine (if_neg ?_).symm
        simp [Board.pattern?, Option.filter_eq_some_iff]
  rcases Nat.lt_or_ge (address.toNat % 0x4000) 0x3F00 with hnametable | hpalette
  · rw [writeVram_nametableRange ppu slot hpattern hnametable, Board.writableAt,
      cellAt_nametableRange slot hpattern hnametable]
    by_cases hfour : slot.mirroring = .fourScreen
    · rw [if_pos hfour, if_pos hfour]
      cases slot with
      | empty => nomatch hfour
      | nrom board =>
        rw [ppuWrite_nametableAddress hfour]
        cases cell with
        | nametable offset =>
          refine (board.nametables.getElem?_cells_store _ _ _).trans ?_
          rw [nametableAddress_mod]
          refine if_congr ?_ rfl rfl
          simp [VramCell.isWritable]
        | pattern _ | ciram _ | palette _ => exact (if_neg nofun).symm
    · rw [if_neg hfour, if_neg hfour]
      have hlt := (Checked.ciramIndex_eq slot (nametableAddress address)).2
      cases cell with
      | ciram offset =>
        refine (ppu.ciram.getElem?_cells_store _ _ _).trans ?_
        rw [Nat.mod_eq_of_lt hlt]
        refine if_congr ?_ rfl rfl
        simp [VramCell.isWritable]
      | pattern _ | nametable _ | palette _ => exact (if_neg nofun).symm
  · rw [writeVram_paletteRange ppu slot hpalette, Board.writableAt,
      cellAt_paletteRange slot hpalette]
    have hlt := (paletteIndex_spec address.toNat).1
    cases cell with
    | palette entry =>
      refine (ppu.palette.getElem?_cells_store _ _ _).trans ?_
      rw [Nat.mod_eq_of_lt hlt]
      refine if_congr ?_ rfl rfl
      simp [VramCell.isWritable]
    | pattern _ | ciram _ | nametable _ => exact (if_neg nofun).symm

end Ppu

/-- Slots that differ at most in the bytes that the picture unit writes. -/
inductive Board.Rewritten : Board → Board → Prop where
  | empty : Rewritten .empty .empty
  | nrom (board : Nrom) {pattern : PatternMemory} (nametables : Memory 0x1000)
      (size_eq : pattern.bytes.size = board.pattern.bytes.size)
      (isRam_eq : pattern.isRam = board.pattern.isRam) :
      Rewritten (.nrom board) (.nrom { board with pattern, nametables })

namespace Board

variable {slot later : Board}

theorem Rewritten.refl (slot : Board) : slot.Rewritten slot := by
  cases slot with
  | empty => exact .empty
  | nrom board => exact .nrom board board.nametables rfl rfl

theorem Rewritten.trans {last : Board} (h : slot.Rewritten later) (h' : later.Rewritten last) :
    slot.Rewritten last := by
  cases h with
  | empty => exact h'
  | nrom board nametables size_eq isRam_eq =>
    cases h' with
    | nrom _ nametables' size_eq' isRam_eq' =>
      exact .nrom board nametables' (size_eq'.trans size_eq) (isRam_eq'.trans isRam_eq)

theorem Rewritten.cellAt (h : slot.Rewritten later) (address : UInt16) :
    later.cellAt address = slot.cellAt address := by
  have hmirroring : later.mirroring = slot.mirroring := by cases h <;> rfl
  have hpattern (place : Nat) :
      (later.pattern?.map fun memory => VramCell.pattern (place % memory.bytes.size)) =
        slot.pattern?.map fun memory => VramCell.pattern (place % memory.bytes.size) := by
    cases h with
    | empty => rfl
    | nrom board nametables size_eq isRam_eq => simp only [pattern?, Option.map_some, size_eq]
  simp only [Board.cellAt, hmirroring, hpattern]

theorem Rewritten.writableAt (h : slot.Rewritten later) (address : UInt16) :
    later.writableAt address = slot.writableAt address := by
  have hwritable : (VramCell.isWritable later) = VramCell.isWritable slot := by
    funext cell
    cases h with
    | empty => rfl
    | nrom board nametables size_eq isRam_eq =>
      cases cell with
      | pattern _ => exact isRam_eq
      | ciram _ | nametable _ | palette _ => rfl
  simp only [Board.writableAt, h.cellAt, hwritable]

theorem rewritten_ppuWrite (slot : Board) (address : UInt16) (value : UInt8) :
    slot.Rewritten (Cartridge.ppuWrite slot address value) := by
  cases slot with
  | empty => exact .empty
  | nrom board =>
    show Rewritten _ (.nrom (board.ppuStore address value))
    unfold Nrom.ppuStore
    split
    · exact .nrom board _ (PatternMemory.size_bytes_store ..) (PatternMemory.isRam_store ..)
    split
    · exact .nrom board _ rfl rfl
    · exact .refl _

end Board

namespace Ppu

variable (ppu : Ppu) (slot : Board)

/-- A write changes two memories of the unit at most, and bytes of the board. -/
theorem writeVram_changes (address : UInt16) (value : UInt8) :
    (ppu.writeVram slot address value).1 = { ppu with
        ciram := (ppu.writeVram slot address value).1.ciram
        palette := (ppu.writeVram slot address value).1.palette } ∧
      slot.Rewritten (ppu.writeVram slot address value).2 := by
  simp only [writeVram]
  split
  · exact ⟨rfl, slot.rewritten_ppuWrite _ _⟩
  split
  · split
    · exact ⟨rfl, .refl slot⟩
    · exact ⟨rfl, slot.rewritten_ppuWrite _ _⟩
  · exact ⟨rfl, .refl slot⟩

/-- Through whatever address a cell is written, it is read through all that name it. -/
theorem readVram_writeVram (a b : UInt16) (value : UInt8) {cell : VramCell}
    (ha : slot.cellAt a = some cell) :
    ((ppu.writeVram slot b value).1.readVram (ppu.writeVram slot b value).2 a).1 =
      if slot.writableAt b = some cell then cell.shown ppu.mask value
      else (ppu.readVram slot a).1 := by
  obtain ⟨hppu, hslot⟩ := ppu.writeVram_changes slot b value
  have hmask : (ppu.writeVram slot b value).1.mask = ppu.mask := by rw [hppu]
  obtain ⟨before, hbefore, hread⟩ := ppu.readVram_cell slot ha
  obtain ⟨after, hafter, hreread⟩ :=
    (ppu.writeVram slot b value).1.readVram_cell _ ((hslot.cellAt a).trans ha)
  rw [hread, hreread, hmask]
  rw [ppu.byte?_writeVram, hbefore] at hafter
  split at hafter
  · next hsame =>
    rw [if_pos hsame, ← Option.some.inj hafter]
    exact cell.shown_kept ppu.mask value
  · next hother => rw [if_neg hother, ← Option.some.inj hafter]

end Ppu

end Famicom
