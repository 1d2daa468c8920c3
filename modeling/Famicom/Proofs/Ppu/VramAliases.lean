import Famicom.Proofs.Ppu.VramCells

/-!
# Addresses of one cell

The picture unit decodes addresses step by step: of sixteen bits it drops two, it folds the upper
nametables onto the lower and the sprites' backdrops onto the background's, and leaves the rest to
the board, which repeats its pattern memory and wires the nametables. What comes of it is a memory
whose cells have several addresses each.

* `Ppu.cellAt_nametable_iff`: nametables are one exactly as the wiring says.
* `Ppu.exists_cellAt_palette`: there are 28 palette entries.
* `Checked.ppuLoad_eq`, `Checked.ppuStore_eq`: no index leaves a memory of the board.
* `Ppu.aliasedMemory`: reads after writes at any two addresses.
-/

namespace Famicom

/-! ## The ranges -/

/-- Whether two of the four nametables are one. -/
def Mirroring.Identifies : Mirroring → Nat → Nat → Prop
  | .horizontal, table, other => table / 2 = other / 2
  | .vertical, table, other => table % 2 = other % 2
  | .singleLower, _, _ | .singleUpper, _, _ => True
  | .fourScreen, table, other => table = other

namespace Ppu

variable (slot : Board) {a b : UInt16}

theorem cellAt_pattern_iff {memory : PatternMemory} (hmemory : slot.pattern? = some memory)
    (ha : a.toNat % 0x4000 < 0x2000) (hb : b.toNat % 0x4000 < 0x2000) :
    slot.cellAt a = slot.cellAt b ↔
      a.toNat % 0x4000 % memory.bytes.size = b.toNat % 0x4000 % memory.bytes.size := by
  rw [cellAt_patternRange slot ha, cellAt_patternRange slot hb, hmemory]
  simp only [Option.map_some, Option.some_inj, VramCell.pattern.injEq]

/-- Addresses in the nametables name one cell exactly if they name the same place of nametables
that are one. -/
theorem cellAt_nametable_iff
    (ha : 0x2000 ≤ a.toNat % 0x4000) (ha' : a.toNat % 0x4000 < 0x3F00)
    (hb : 0x2000 ≤ b.toNat % 0x4000) (hb' : b.toNat % 0x4000 < 0x3F00) :
    slot.cellAt a = slot.cellAt b ↔
      a.toNat % 0x400 = b.toNat % 0x400 ∧
        slot.mirroring.Identifies (a.toNat / 0x400 % 4) (b.toNat / 0x400 % 4) := by
  have hlow (address : UInt16) : address.toNat % 0x400 < 0x400 := Nat.mod_lt _ (by decide)
  have := hlow a
  have := hlow b
  rw [cellAt_tables slot ha ha', cellAt_tables slot hb hb']
  generalize a.toNat % 0x400 = offset, b.toNat % 0x400 = offset',
    a.toNat / 0x400 % 4 = table, b.toNat / 0x400 % 4 = table' at *
  cases slot.mirroring with
  | fourScreen =>
    simp only [if_true, Option.some_inj, VramCell.nametable.injEq, Mirroring.Identifies]
    omega
  | horizontal | vertical =>
    simp only [reduceCtorEq, if_false, Option.some_inj, VramCell.ciram.injEq,
      Mirroring.Identifies, Mirroring.bank]
    omega
  | singleLower | singleUpper =>
    simp only [reduceCtorEq, if_false, Option.some_inj, VramCell.ciram.injEq,
      Mirroring.Identifies, Mirroring.bank, Nat.add_left_cancel_iff, and_true]

theorem cellAt_palette_iff (ha : 0x3F00 ≤ a.toNat % 0x4000) (hb : 0x3F00 ≤ b.toNat % 0x4000) :
    slot.cellAt a = slot.cellAt b ↔
      a.toNat % 32 = b.toNat % 32 ∨
        a.toNat % 4 = 0 ∧ b.toNat % 4 = 0 ∧ a.toNat % 16 = b.toNat % 16 := by
  rw [cellAt_paletteRange slot ha, cellAt_paletteRange slot hb, paletteIndex_eq, paletteIndex_eq]
  simp only [Option.some_inj, VramCell.palette.injEq]
  split <;> split <;> omega

/-- The entries of palette memory that have addresses. -/
def paletteEntries : List Nat := (List.range 32).filter fun entry => entry < 16 ∨ entry % 4 ≠ 0

theorem exists_cellAt_palette (entry : Nat) :
    (∃ address, slot.cellAt address = some (.palette entry)) ↔ entry ∈ paletteEntries := by
  have hmem : entry ∈ paletteEntries ↔ entry < 32 ∧ (entry < 16 ∨ entry % 4 ≠ 0) := by
    simp only [paletteEntries, List.mem_filter, List.mem_range, decide_eq_true_eq]
  rw [hmem]
  constructor
  · rintro ⟨address, h⟩
    obtain ⟨-, rfl⟩ := place_of_palette slot h
    have hspec := paletteIndex_spec address.toNat
    omega
  · intro h
    have haddress : (UInt16.ofNat (0x3F00 + entry)).toNat = 0x3F00 + entry := by
      rw [UInt16.toNat_ofNat']
      omega
    refine ⟨UInt16.ofNat (0x3F00 + entry), ?_⟩
    rw [cellAt_paletteRange slot (by omega), paletteIndex_eq, haddress]
    congr 2
    split <;> omega

end Ppu

/-! ## Indices -/

namespace Checked

/-- `PatternMemory.load`. -/
def loadPattern (memory : PatternMemory) (address : Nat) : Option UInt8 :=
  memory.bytes[address % memory.bytes.size]?

/-- `PatternMemory.store`. -/
def storePattern (memory : PatternMemory) (address : Nat) (value : UInt8) : Option PatternMemory :=
  match memory with
  | .rom chip => some (.rom chip)
  | .ram chip => do
    let chip ← store chip (address % memory.bytes.size) value
    some (.ram chip)

/-- `Nrom.ppuLoad`. -/
def ppuLoad (board : Nrom) (address : UInt16) : Option UInt8 :=
  if address < 0x2000 then loadPattern board.pattern address.toNat
  else if address < 0x3F00 ∧ board.fourScreen then load board.nametables (address.toNat % 0x1000)
  else some 0

/-- `Nrom.ppuStore`. -/
def ppuStore (board : Nrom) (address : UInt16) (value : UInt8) : Option Nrom :=
  if address < 0x2000 then do
    let pattern ← storePattern board.pattern address.toNat value
    some { board with pattern }
  else if address < 0x3F00 ∧ board.fourScreen then do
    let nametables ← store board.nametables (address.toNat % 0x1000) value
    some { board with nametables }
  else some board

theorem storePattern_eq (memory : PatternMemory) (address : Nat) (value : UInt8) :
    storePattern memory address value = some (memory.store address value) := by
  cases memory with
  | rom chip => rfl
  | ram chip =>
    have hsize : (PatternMemory.ram chip).bytes.size = 0x2000 := chip.cells.size_toArray
    have hstore := store_eq chip value (Nat.mod_lt address chip.size_pos)
    have hmod : chip.store (address % 0x2000) value = chip.store address value := by
      simp only [Memory.store, Nat.mod_mod]
    simp only [storePattern, hsize, hstore, hmod, Option.bind_eq_bind, Option.bind_some]
    rfl

theorem ppuLoad_eq (board : Nrom) (address : UInt16) :
    ppuLoad board address = some (board.ppuLoad address) := by
  have hpattern := board.pattern.getElem?_bytes address.toNat
  have hnametables := board.nametables.getElem?_cells address.toNat
  simp only [ppuLoad, Nrom.ppuLoad, loadPattern, load, hpattern, hnametables, ← apply_ite some]

theorem ppuStore_eq (board : Nrom) (address : UInt16) (value : UInt8) :
    ppuStore board address value = some (board.ppuStore address value) := by
  have hstore := store_eq board.nametables value
    (Nat.mod_lt address.toNat board.nametables.size_pos)
  have hmod : board.nametables.store (address.toNat % 0x1000) value =
      board.nametables.store address.toNat value := by
    simp only [Memory.store, Nat.mod_mod]
  simp only [ppuStore, Nrom.ppuStore, storePattern_eq, hstore, hmod, Option.bind_eq_bind,
    Option.bind_some, ← apply_ite some]

end Checked

namespace Ppu

/-- The address space of the picture unit is a memory whose cells have several addresses. -/
structure AliasedMemory (ppu : Ppu) (slot : Board) : Prop where
  /-- Without a cell, an address reads as zero. -/
  read_none : ∀ a, slot.cellAt a = none → ppu.readVram slot a = (0, slot)
  /-- A cell holds a byte, and its addresses read as that. -/
  read_cell : ∀ a cell, slot.cellAt a = some cell → ∃ byte, cell.byte? ppu slot = some byte ∧
    ppu.readVram slot a = (cell.shown ppu.mask byte, slot)
  /-- A byte written at one address of a cell that can be written is read at all of them. -/
  read_same : ∀ a b value cell, slot.cellAt a = some cell → slot.cellAt b = some cell →
    cell.isWritable slot →
      ((ppu.writeVram slot b value).1.readVram (ppu.writeVram slot b value).2 a).1 =
        cell.shown ppu.mask value
  /-- Whatever else is written, an address reads as before. -/
  read_other : ∀ a b value,
    (¬ ∃ cell, slot.cellAt a = some cell ∧ slot.cellAt b = some cell ∧ cell.isWritable slot) →
      ((ppu.writeVram slot b value).1.readVram (ppu.writeVram slot b value).2 a).1 =
        (ppu.readVram slot a).1
  /-- No other cell is written, whether it has an address or not. -/
  other_cells : ∀ b value cell, ¬ (slot.cellAt b = some cell ∧ cell.isWritable slot) →
    cell.byte? (ppu.writeVram slot b value).1 (ppu.writeVram slot b value).2 =
      cell.byte? ppu slot
  /-- Nothing is written but cells. -/
  only_cells : ∀ b value,
    (ppu.writeVram slot b value).1 = { ppu with
        ciram := (ppu.writeVram slot b value).1.ciram
        palette := (ppu.writeVram slot b value).1.palette } ∧
      slot.Rewritten (ppu.writeVram slot b value).2
  /-- After a write, the addresses name the cells they named. -/
  cells_kept : ∀ b value a, (ppu.writeVram slot b value).2.cellAt a = slot.cellAt a
  /-- Pattern memory repeats as its size says. -/
  pattern_iff : ∀ a b memory, slot.pattern? = some memory →
    a.toNat % 0x4000 < 0x2000 → b.toNat % 0x4000 < 0x2000 →
      (slot.cellAt a = slot.cellAt b ↔
        a.toNat % 0x4000 % memory.bytes.size = b.toNat % 0x4000 % memory.bytes.size)
  /-- Nametables are one as the wiring says. -/
  nametable_iff : ∀ a b : UInt16, 0x2000 ≤ a.toNat % 0x4000 → a.toNat % 0x4000 < 0x3F00 →
    0x2000 ≤ b.toNat % 0x4000 → b.toNat % 0x4000 < 0x3F00 →
      (slot.cellAt a = slot.cellAt b ↔
        a.toNat % 0x400 = b.toNat % 0x400 ∧
          slot.mirroring.Identifies (a.toNat / 0x400 % 4) (b.toNat / 0x400 % 4))
  /-- The palette repeats, and the first entries of the sprite palettes are those of the
  background. -/
  palette_iff : ∀ a b : UInt16, 0x3F00 ≤ a.toNat % 0x4000 → 0x3F00 ≤ b.toNat % 0x4000 →
    (slot.cellAt a = slot.cellAt b ↔
      a.toNat % 32 = b.toNat % 32 ∨
        a.toNat % 4 = 0 ∧ b.toNat % 4 = 0 ∧ a.toNat % 16 = b.toNat % 16)
  /-- There are 28 palette entries. -/
  palette_entries : paletteEntries.Nodup ∧ paletteEntries.length = 28 ∧
    ∀ entry, (∃ a, slot.cellAt a = some (.palette entry)) ↔ entry ∈ paletteEntries
  /-- No index leaves a memory of the unit. -/
  inside : ∀ a value, Checked.readVram ppu slot a = some (ppu.readVram slot a) ∧
    Checked.writeVram ppu slot a value = some (ppu.writeVram slot a value)
  /-- No index leaves a memory of the board. -/
  inside_board : ∀ board, slot = .nrom board → ∀ a value,
    Checked.ppuLoad board a = some (board.ppuLoad a) ∧
      Checked.ppuStore board a value = some (board.ppuStore a value)

/-- Whatever is in the slot and however it is wired, the address space is a memory whose cells
have several addresses. -/
theorem aliasedMemory (ppu : Ppu) (slot : Board) : ppu.AliasedMemory slot where
  read_none a h := ppu.readVram_none slot h
  read_cell a cell h := ppu.readVram_cell slot h
  read_same a b value cell ha hb hwritable := by
    rw [ppu.readVram_writeVram slot a b value ha,
      if_pos (Board.writableAt_eq_some_iff.mpr ⟨hb, hwritable⟩)]
  read_other a b value h := by
    cases ha : slot.cellAt a with
    | none =>
      have hkept := ((ppu.writeVram_changes slot b value).2.cellAt a).trans ha
      rw [readVram_none _ _ hkept, readVram_none _ _ ha]
    | some cell =>
      rw [ppu.readVram_writeVram slot a b value ha, if_neg]
      exact fun hsame => h ⟨cell, ha, Board.writableAt_eq_some_iff.mp hsame⟩
  other_cells b value cell h := by
    rw [ppu.byte?_writeVram, if_neg (mt Board.writableAt_eq_some_iff.mp h)]
  only_cells b value := ppu.writeVram_changes slot b value
  cells_kept b value a := (ppu.writeVram_changes slot b value).2.cellAt a
  pattern_iff a b memory hmemory ha hb := cellAt_pattern_iff slot hmemory ha hb
  nametable_iff a b ha ha' hb hb' := cellAt_nametable_iff slot ha ha' hb hb'
  palette_iff a b ha hb := cellAt_palette_iff slot ha hb
  palette_entries := ⟨by decide, by decide, exists_cellAt_palette slot⟩
  inside a value := ⟨Checked.readVram_eq ppu slot a, Checked.writeVram_eq ppu slot a value⟩
  inside_board board _ a value := ⟨Checked.ppuLoad_eq board a, Checked.ppuStore_eq board a value⟩

end Ppu

end Famicom
