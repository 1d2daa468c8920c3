import Famicom.Cartridge.Nrom
import Famicom.Proofs.Cpu.Access
import Famicom.Proofs.Ppu.Settings

/-!
# What is delivered to a board, and what is read from it

A program reaches the memory of a board on two ways: it writes to an address from `$6000`, or it
writes at the current address of the picture unit, through `$2007`. A ledger on a bus notes what is
delivered, and where to, and what the processor reads. A board without bank switching is what its
images and the ledger say.

* `Bus.delivery?`: what a write delivers.
* `Nrom.Faithful`: the images are unchanged, and RAM holds what has been delivered to it last.
* `Bus.Remembers`: the board is faithful, and so was all that has been read.
* `Bus.remembers_read`, `Bus.remembers_write`: an access keeps that.
* `Ledger.remembers`: so does anything that a processor can do.
-/

namespace Famicom

open SystemBus

/-- A cell of a board's memory, by the address at which it is reached. -/
inductive BoardCell where
  /-- Reached by the processor. -/
  | program (address : UInt16)
  /-- Reached by the picture unit. -/
  | pattern (address : UInt16)
  deriving DecidableEq, Repr

/-- What a ledger notes. -/
inductive Entry where
  /-- A byte is delivered to a cell. -/
  | delivery (cell : BoardCell) (value : UInt8)
  /-- The processor reads a byte at an address. -/
  | reading (address : UInt16) (value : UInt8)
  deriving DecidableEq, Repr

/-- The byte that an entry delivers to a cell. -/
def Entry.delivered? (cell : BoardCell) : Entry → Option UInt8
  | .delivery target value => if target = cell then some value else none
  | .reading _ _ => none

/-- The byte that was delivered last to a cell, or zero if there was none; the latest entry is the
first of the list. -/
def lastByte (entries : List Entry) (cell : BoardCell) : UInt8 :=
  (entries.findSome? (·.delivered? cell)).getD 0

theorem lastByte_delivery (target cell : BoardCell) (value : UInt8) (earlier : List Entry) :
    lastByte (.delivery target value :: earlier) cell =
      if target = cell then value else lastByte earlier cell := by
  by_cases hsame : target = cell <;> simp [lastByte, Entry.delivered?, hsame]

/-- What the processor reads is right, given what has been delivered before: the program image,
repeated, and the last byte delivered to RAM. -/
def Entry.Right (program : Array UInt8) (earlier : List Entry) : Entry → Prop
  | .delivery _ _ => True
  | .reading address value =>
    (0x8000 ≤ address → program[(address.toNat - 0x8000) % program.size]? = some value) ∧
      (0x6000 ≤ address → address < 0x8000 → value = lastByte earlier (.program address))

/-- All that the processor has read is right. -/
def AllRight (program : Array UInt8) : List Entry → Prop
  | [] => True
  | entry :: earlier => entry.Right program earlier ∧ AllRight program earlier

/-! ## Boards -/

/-- The images of a board are unchanged, and its RAM holds what has been delivered to it last. -/
structure Nrom.Faithful (program pattern : Array UInt8) (entries : List Entry) (board : Nrom) :
    Prop where
  size_pos : 0 < program.size
  program : board.program = Rom.ofImage program
  image : 0 < pattern.size → board.pattern = PatternMemory.ofImage pattern
  patternRam : pattern.size = 0 → ∃ chip, board.pattern = .ram chip ∧
    ∀ address : UInt16, address < 0x2000 →
      chip.load address.toNat = lastByte entries (.pattern address)
  programRam : ∀ address : UInt16, 0x6000 ≤ address → address < 0x8000 →
    board.programRam.load address.toNat = lastByte entries (.program address)

namespace Nrom

variable {program pattern : Array UInt8} {entries : List Entry} {board : Nrom}

/-- A board that has just been built, to which nothing has been delivered. -/
theorem faithful_new (hprogram : 0 < program.size) (pattern : Array UInt8)
    (mirroring : Mirroring) : (new program pattern mirroring).Faithful program pattern [] where
  size_pos := hprogram
  program := rfl
  image _ := rfl
  patternRam hempty := by
    have hnone : Rom.ofImage? pattern = none := dif_neg (by omega)
    refine ⟨Memory.filled 0x2000 0, ?_, fun address _ => Memory.load_filled _ _ _⟩
    show PatternMemory.ofImage pattern = _
    rw [PatternMemory.ofImage, hnone]
  programRam address _ _ := Memory.load_filled _ _ _

/-! A write delivers to RAM, and to nothing else. -/

theorem Faithful.cpuStore (h : board.Faithful program pattern entries) (address : UInt16)
    (value : UInt8) :
    (board.cpuStore address value).Faithful program pattern
      (if 0x6000 ≤ address ∧ address < 0x8000 then
        .delivery (.program address) value :: entries
      else entries) := by
  unfold Nrom.cpuStore
  by_cases hram : 0x6000 ≤ address ∧ address < 0x8000
  · rw [if_pos hram, if_pos hram]
    refine { h with patternRam := fun hempty => ?_, programRam := fun cell hlow hhigh => ?_ }
    · obtain ⟨chip, hchip, hload⟩ := h.patternRam hempty
      refine ⟨chip, hchip, fun cell hcell => ?_⟩
      rw [lastByte_delivery, if_neg (by simp)]
      exact hload cell hcell
    · have hcell : address.toNat % 0x2000 = cell.toNat % 0x2000 ↔
          BoardCell.program address = .program cell := by
        rw [BoardCell.program.injEq, ← UInt16.toNat_inj]
        simp only [UInt16.lt_iff_toNat_lt, UInt16.le_iff_toNat_le, UInt16.reduceToNat]
          at hram hlow hhigh
        omega
      rw [Memory.load_store, lastByte_delivery, h.programRam cell hlow hhigh]
      simp only [hcell]
  · rw [if_neg hram, if_neg hram]
    exact h

theorem Faithful.ppuStore (h : board.Faithful program pattern entries) (address : UInt16)
    (value : UInt8) :
    (board.ppuStore address value).Faithful program pattern
      (if address < 0x2000 then .delivery (.pattern address) value :: entries else entries) := by
  unfold Nrom.ppuStore
  by_cases hpattern : address < 0x2000
  · rw [if_pos hpattern, if_pos hpattern]
    refine { h with
      image := fun himage => ?_
      patternRam := fun hempty => ?_
      programRam := fun cell hlow hhigh => ?_ }
    · show board.pattern.store address.toNat value = _
      rw [h.image himage, PatternMemory.ofImage, Rom.ofImage?, dif_pos himage]
      rfl
    · obtain ⟨chip, hchip, hload⟩ := h.patternRam hempty
      refine ⟨chip.store address.toNat value, ?_, fun cell hlow => ?_⟩
      · show board.pattern.store address.toNat value = _
        rw [hchip]
        rfl
      · have hcell : address.toNat % 0x2000 = cell.toNat % 0x2000 ↔
            BoardCell.pattern address = .pattern cell := by
          rw [BoardCell.pattern.injEq, ← UInt16.toNat_inj]
          simp only [UInt16.lt_iff_toNat_lt, UInt16.reduceToNat] at hpattern hlow
          omega
        rw [Memory.load_store, lastByte_delivery, hload cell hlow]
        simp only [hcell]
    · rw [lastByte_delivery, if_neg (by simp)]
      exact h.programRam cell hlow hhigh
  · rw [if_neg hpattern, if_neg hpattern]
    split
    · exact { h with }
    · exact h

/-! What the board answers to the processor and to the picture unit. -/

theorem Faithful.cpuLoad_program (h : board.Faithful program pattern entries) {address : UInt16}
    (haddress : 0x8000 ≤ address) :
    program[(address.toNat - 0x8000) % program.size]? = some (board.cpuLoad address) := by
  have hoffset : (address - 0x8000).toNat = address.toNat - 0x8000 :=
    UInt16.toNat_sub_of_le _ _ haddress
  rw [cpuLoad, if_pos haddress, hoffset, h.program, Rom.ofImage, Rom.ofImage?, dif_pos h.size_pos]
  exact Array.getElem?_eq_getElem (Nat.mod_lt _ h.size_pos)

theorem Faithful.cpuLoad_ram (h : board.Faithful program pattern entries) {address : UInt16}
    (hlow : 0x6000 ≤ address) (hhigh : address < 0x8000) :
    board.cpuLoad address = lastByte entries (.program address) := by
  rw [cpuLoad, if_neg (UInt16.not_le.mpr hhigh), if_pos hlow]
  exact h.programRam address hlow hhigh

theorem Faithful.ppuLoad_image (h : board.Faithful program pattern entries)
    (hpattern : 0 < pattern.size) {address : UInt16} (haddress : address < 0x2000) :
    pattern[address.toNat % pattern.size]? = some (board.ppuLoad address) := by
  rw [ppuLoad, if_pos haddress, h.image hpattern, PatternMemory.ofImage, Rom.ofImage?,
    dif_pos hpattern]
  exact Array.getElem?_eq_getElem (Nat.mod_lt _ hpattern)

theorem Faithful.ppuLoad_ram (h : board.Faithful program pattern entries)
    (hpattern : pattern.size = 0) {address : UInt16} (haddress : address < 0x2000) :
    board.ppuLoad address = lastByte entries (.pattern address) := by
  obtain ⟨chip, hchip, hload⟩ := h.patternRam hpattern
  rw [ppuLoad, if_pos haddress, hchip]
  exact hload address haddress

end Nrom

/-! ## The picture unit -/

namespace Ppu

/-- Below `$2000`, the picture unit reads the pattern memory of the board. -/
theorem readVram_ppuLoad (ppu : Ppu) (board : Nrom) {address : UInt16}
    (haddress : address < 0x2000) : (ppu.readVram board address).1 = board.ppuLoad address := by
  have hlow : address.toNat < 0x2000 := haddress
  have hmod : address % 0x4000 = address := by
    rw [← UInt16.toNat_inj, UInt16.toNat_mod]
    exact Nat.mod_eq_of_lt (Nat.lt_trans hlow (by decide))
  unfold readVram
  dsimp only
  rw [hmod, if_pos haddress]
  rfl

/-- Reading a register changes nothing on a board. -/
theorem readRegister_board (ppu : Ppu) (board : Nrom) (address : UInt16) :
    (ppu.readRegister board address).2.2 = board := by
  have hread (ppu : Ppu) (address : UInt16) : (ppu.readVram board address).2 = board :=
    ppu.readVram_cartridge (f := id) (fun _ _ => rfl) board address
  unfold readRegister
  dsimp only
  split
  · rfl
  split
  · rfl
  split
  · unfold readData
    dsimp only
    split
    · dsimp only
      rw [hread]
      exact hread _ _
    · exact hread _ _
  · rfl

/-- A register write reaches the cartridge through one register, at the current address. -/
theorem writeRegister_cartridge {C : Type} [Cartridge C] (ppu : Ppu) (cartridge : C)
    (address : UInt16) (value : UInt8) :
    (ppu.writeRegister cartridge address value).2 =
      if address % 8 = 7 then (ppu.writeVram cartridge ppu.v value).2 else cartridge := by
  by_cases hdata : address % 8 = 7
  · have hvram : ({ ppu with ioLatch := value }.writeVram cartridge ppu.v value).2 =
        (ppu.writeVram cartridge ppu.v value).2 := by
      unfold writeVram
      dsimp only
      repeat' split
      all_goals rfl
    rw [if_pos hdata, ← hvram]
    simp [writeRegister, writeData, hdata]
  · rw [if_neg hdata]
    unfold writeRegister
    dsimp only
    repeat' split
    all_goals rfl

/-- A write at an address of the picture unit keeps a board faithful. -/
theorem faithful_writeVram {program pattern : Array UInt8} {entries : List Entry} {board : Nrom}
    (h : board.Faithful program pattern entries) (ppu : Ppu) (address : UInt16) (value : UInt8) :
    (ppu.writeVram board address value).2.Faithful program pattern
      (if address % 0x4000 < 0x2000 then
        .delivery (.pattern (address % 0x4000)) value :: entries
      else entries) := by
  unfold writeVram
  dsimp only
  by_cases hpattern : address % 0x4000 < 0x2000
  · have hstore := h.ppuStore (address % 0x4000) value
    rw [if_pos hpattern] at hstore ⊢
    rw [if_pos hpattern]
    exact hstore
  · rw [if_neg hpattern, if_neg hpattern]
    split
    · split
      · exact h
      · have hnametable : ¬ nametableAddress (address % 0x4000) < 0x2000 := by
          simp only [nametableAddress, UInt16.lt_iff_toNat_lt, UInt16.toNat_add, UInt16.toNat_mod,
            UInt16.reduceToNat]
          omega
        have hstore := h.ppuStore (nametableAddress (address % 0x4000)) value
        rwa [if_neg hnametable] at hstore
    · exact h

end Ppu

/-! ## The bus -/

namespace Bus

section

variable {C A D : Type}

/-- What a write delivers to a cell of the board, if it delivers anything. -/
def delivery? (bus : Bus C A D) (address : UInt16) (value : UInt8) : Option Entry :=
  if 0x6000 ≤ address ∧ address < 0x8000 then some (.delivery (.program address) value)
  else if ppuRegister? address = some 7 ∧ bus.ppu.v % 0x4000 < 0x2000 then
    some (.delivery (.pattern (bus.ppu.v % 0x4000)) value)
  else none

/-- The board is faithful to what is noted, and all that is noted was right. -/
structure Remembers (program pattern : Array UInt8) (entries : List Entry) (bus : Bus Nrom A D) :
    Prop where
  board : bus.cartridge.Faithful program pattern entries
  readings : AllRight program entries

end

variable {A D : Type} {program pattern : Array UInt8} {entries : List Entry}

/-- A write to a register of the picture unit keeps a board faithful, with its delivery. -/
theorem faithful_writePpu (bus : Bus Nrom A D)
    (h : bus.cartridge.Faithful program pattern entries) {address : UInt16}
    (hlow : 0x2000 ≤ address) (hhigh : address < 0x4000) (value : UInt8) :
    (bus.writePpu address value).cartridge.Faithful program pattern
      ((bus.delivery? address value).toList ++ entries) := by
  have hdirect : ¬ (0x6000 ≤ address ∧ address < 0x8000) := fun hram => by
    have hfrom : 0x6000 ≤ address.toNat := hram.1
    have hto : address.toNat < 0x4000 := hhigh
    omega
  have hregister : ppuRegister? address = some 7 ↔ address % 8 = 7 := by
    rw [ppuRegister?, if_pos ⟨hlow, hhigh⟩, Option.some_inj]
  have hvram := Ppu.faithful_writeVram h bus.ppu bus.ppu.v value
  show (bus.ppu.writeRegister bus.cartridge address value).2.Faithful program pattern _
  rw [Ppu.writeRegister_cartridge, delivery?, if_neg hdirect]
  by_cases hdata : address % 8 = 7
  · by_cases hpattern : bus.ppu.v % 0x4000 < 0x2000
    · rw [if_pos hpattern] at hvram
      rw [if_pos hdata, if_pos ⟨hregister.mpr hdata, hpattern⟩]
      exact hvram
    · rw [if_neg hpattern] at hvram
      rw [if_pos hdata, if_neg fun both => hpattern both.2]
      exact hvram
  · rw [if_neg hdata, if_neg fun both => hdata (hregister.mp both.1)]
    exact h

variable [Apu A] [Controller D]

/-- A write keeps a board faithful, with its delivery. -/
theorem faithful_write (bus : Bus Nrom A D)
    (h : bus.cartridge.Faithful program pattern entries) (address : UInt16) (value : UInt8) :
    (bus.write address value).cartridge.Faithful program pattern
      ((bus.delivery? address value).toList ++ entries) := by
  unfold write
  by_cases hppu : 0x2000 ≤ address ∧ address < 0x4000
  · rw [if_neg (UInt16.not_lt.mpr hppu.1), if_pos hppu.2]
    exact bus.faithful_writePpu h hppu.1 hppu.2 value
  have hregister : ppuRegister? address = none := if_neg hppu
  have hstore := h.cpuStore address value
  have hdelivery : (bus.delivery? address value).toList ++ entries =
      if 0x6000 ≤ address ∧ address < 0x8000 then
        .delivery (.program address) value :: entries
      else entries := by
    unfold delivery?
    rw [hregister]
    split <;> rfl
  rw [hdelivery]
  by_cases hboard : 0x4020 ≤ address
  · have hfrom : 0x4020 ≤ address.toNat := hboard
    have hnot {bound : UInt16} (hbound : bound.toNat ≤ 0x4020) : ¬ address < bound := by
      rw [UInt16.lt_iff_toNat_lt]
      omega
    rw [if_neg (hnot (by decide)), if_neg (hnot (by decide)), if_neg (hnot (by decide))]
    exact hstore
  · have hdirect : ¬ (0x6000 ≤ address ∧ address < 0x8000) := fun hram => by
      have hfrom : 0x6000 ≤ address.toNat := hram.1
      have hto : ¬ 0x4020 ≤ address.toNat := hboard
      omega
    rw [if_neg hdirect]
    split
    · exact h
    split
    · next hram hregisters => exact absurd ⟨UInt16.not_lt.mp hram, hregisters⟩ hppu
    split
    · rw [(bus.writeIo_devices address value).2]
      exact h
    · next hio => exact absurd (UInt16.not_lt.mp hio) hboard

/-- A read changes nothing on a board. -/
theorem read_board (bus : Bus Nrom A D) (address : UInt16) :
    (bus.read address).2.cartridge = bus.cartridge := by
  unfold read
  split
  · rfl
  split
  · exact bus.ppu.readRegister_board bus.cartridge address
  split
  · exact (bus.readIo_devices address).2
  · rfl

/-- From `$6000`, the processor reads the memory of the board. -/
theorem read_cpuLoad (bus : Bus Nrom A D) {address : UInt16} (h : 0x6000 ≤ address) :
    (bus.read address).1 = bus.cartridge.cpuLoad address := by
  have hfrom : 0x6000 ≤ address.toNat := h
  have hnot {bound : UInt16} (hbound : bound.toNat ≤ 0x6000) : ¬ address < bound := by
    rw [UInt16.lt_iff_toNat_lt]
    omega
  unfold read
  rw [if_neg (hnot (by decide)), if_neg (hnot (by decide)), if_neg (hnot (by decide))]
  rfl

/-- What is read is right. -/
theorem Remembers.right {bus : Bus Nrom A D} (h : bus.Remembers program pattern entries)
    (address : UInt16) : (Entry.reading address (bus.read address).1).Right program entries := by
  constructor
  · intro haddress
    have hlow : 0x6000 ≤ address := UInt16.le_trans (by decide) haddress
    rw [bus.read_cpuLoad hlow]
    exact h.board.cpuLoad_program haddress
  · intro hlow hhigh
    rw [bus.read_cpuLoad hlow]
    exact h.board.cpuLoad_ram hlow hhigh

theorem remembers_read {bus : Bus Nrom A D} (h : bus.Remembers program pattern entries)
    (address : UInt16) :
    (bus.read address).2.Remembers program pattern
      (.reading address (bus.read address).1 :: entries) where
  board := by
    rw [bus.read_board]
    exact { h.board with }
  readings := ⟨h.right address, h.readings⟩

theorem remembers_write {bus : Bus Nrom A D} (h : bus.Remembers program pattern entries)
    (address : UInt16) (value : UInt8) :
    (bus.write address value).Remembers program pattern
      ((bus.delivery? address value).toList ++ entries) where
  board := bus.faithful_write h.board address value
  readings := by
    unfold delivery?
    split
    · exact ⟨trivial, h.readings⟩
    split
    · exact ⟨trivial, h.readings⟩
    · exact h.readings

end Bus

/-! ## Ledgers -/

/-- A bus and what has been noted about it, the latest entry first. -/
structure Ledger (C A D : Type) where
  bus : Bus C A D
  entries : List Entry

namespace Ledger

variable {C A D : Type} [Cartridge C] [Apu A] [Controller D]

/-- A ledger in which nothing has been noted. -/
def start (bus : Bus C A D) : Ledger C A D := ⟨bus, []⟩

instance : SystemBus (Ledger C A D) where
  read l address :=
    ((read l.bus address).1,
      ⟨(read l.bus address).2, .reading address (read l.bus address).1 :: l.entries⟩)
  write l address value :=
    ⟨write l.bus address value, (l.bus.delivery? address value).toList ++ l.entries⟩
  clock l cycles := { l with bus := clock l.bus cycles }
  takeNmi l := ((takeNmi l.bus).1, { l with bus := (takeNmi l.bus).2 })
  irqLine l := irqLine l.bus
  takeDmaRequest l := ((takeDmaRequest l.bus).1, { l with bus := (takeDmaRequest l.bus).2 })
  writeOam l value := { l with bus := writeOam l.bus value }

/-- The processor does not notice a ledger. -/
theorem busMap_bus : BusMap (Ledger.bus : Ledger C A D → Bus C A D) where
  read _ _ := rfl
  write _ _ _ := rfl
  clock _ _ := rfl
  takeNmi _ := rfl
  irqLine _ := rfl
  takeDmaRequest _ := rfl
  writeOam _ _ := rfl

/-- On a ledger, every operation keeps what was noted before, and what it notes, right. -/
theorem keeps_remembers (program pattern : Array UInt8) (earlier : List Entry) :
    Keeps (fun _ => True) fun l : Ledger Nrom A D =>
      l.bus.Remembers program pattern (l.entries ++ earlier) where
  read l address _ h := Bus.remembers_read h address
  write l address value _ h := by
    have hwrite := Bus.remembers_write h address value
    rwa [← List.append_assoc] at hwrite
  clock _ _ h := ⟨h.board, h.readings⟩
  takeNmi _ h := ⟨h.board, h.readings⟩
  takeDmaRequest _ h := ⟨h.board, h.readings⟩
  writeOam _ _ h := ⟨h.board, h.readings⟩

/-- Anything that a processor can do, whatever the bus, keeps a board faithful to what is noted, and
all that it reads meanwhile is right. -/
theorem remembers {α : Type} {program pattern : Array UInt8} {earlier : List Entry}
    (run : ∀ {B : Type} [SystemBus B], B → α × B)
    (natural : ∀ {B B' : Type} [SystemBus B] [SystemBus B'] {f : B → B'}, BusMap f →
      ∀ bus, run (f bus) = ((run bus).1, f (run bus).2))
    {bus : Bus Nrom A D} (h : bus.Remembers program pattern earlier) :
    (run bus).2.Remembers program pattern ((run (start bus)).2.entries ++ earlier) := by
  have hkeeps := keeps_remembers (A := A) (D := D) program pattern earlier
  have hstart : (start bus).bus.Remembers program pattern ((start bus).entries ++ earlier) := h
  have hrun := hkeeps.of_natural run natural hstart fun _ _ => trivial
  have hbare : run bus = _ := natural busMap_bus (start bus)
  rwa [hbare]

end Ledger

end Famicom
