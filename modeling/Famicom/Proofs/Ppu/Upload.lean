import Mathlib.Data.List.Induction
import Famicom.Proofs.Ppu.VramCells

/-!
# Blocks of memory through the data register

A program fills memory of the picture unit by writing an address in two halves and then byte after
byte at one register, which moves the address on. Reads at the same register come one byte late,
through a buffer. So a block is read back behind the byte that was in the buffer.

* `Board.IsBlock`: addresses from which a block can be read back.
* `Ppu.uploaded`: what a cell holds once a block is written.
* `Ppu.download_buffered`: reads yield what lies at the addresses, one byte late.
* `Ppu.download_upload`: a block is read back as it was written.
-/

namespace Famicom

/-- The address of a byte in a block. -/
def blockAddress (start step : UInt16) (i : Nat) : UInt16 :=
  UInt16.ofNat (start.toNat + i * step.toNat)

/-- The first `n` addresses of a block name cells of their own that can be written. They and the
address after them lie below the palette. -/
structure Board.IsBlock (slot : Board) (start step : UInt16) (n : Nat) : Prop where
  below : ∀ i ≤ n, start.toNat + i * step.toNat < 0x3F00
  writable : ∀ i < n, ∃ cell, slot.writableAt (blockAddress start step i) = some cell
  distinct : ∀ i < n, ∀ j < n,
    slot.cellAt (blockAddress start step i) = slot.cellAt (blockAddress start step j) → i = j

theorem Control.increment_le (c : Control) : c.increment.toNat ≤ 32 := by
  unfold increment
  split <;> decide

section

variable {slot : Board} {start step : UInt16} {i : Nat}

theorem toNat_blockAddress (h : start.toNat + i * step.toNat < 0x10000) :
    (blockAddress start step i).toNat = start.toNat + i * step.toNat := by
  rw [blockAddress, UInt16.toNat_ofNat', Nat.mod_eq_of_lt h]

theorem blockAddress_zero (start step : UInt16) : blockAddress start step 0 = start := by
  rw [blockAddress, Nat.zero_mul, Nat.add_zero, UInt16.ofNat_toNat]

/-- After an access, the unit is at the next address of a block. -/
theorem blockAddress_succ (h : start.toNat + i * step.toNat < 0x3F00) (hstep : step.toNat ≤ 32) :
    (blockAddress start step i + step) % 0x8000 = blockAddress start step (i + 1) := by
  have hnext : start.toNat + (i + 1) * step.toNat = start.toNat + i * step.toNat + step.toNat := by
    rw [Nat.succ_mul, Nat.add_assoc]
  apply UInt16.toNat_inj.mp
  rw [UInt16.toNat_mod, UInt16.toNat_add, toNat_blockAddress (by omega),
    toNat_blockAddress (by omega), hnext]
  simp only [UInt16.reduceToNat]
  omega

/-- Below the palette, whole bytes are kept and shown. -/
theorem Board.cellAt_below {address : UInt16} (h : address.toNat < 0x3F00) {cell : VramCell}
    (hcell : slot.cellAt address = some cell) (mask : Mask) (value : UInt8) :
    cell.kept value = value ∧ cell.shown mask value = value := by
  cases cell with
  | palette entry =>
    have hpalette := (Ppu.place_of_palette slot hcell).1
    omega
  | pattern _ | ciram _ | nametable _ => exact ⟨rfl, rfl⟩

theorem Board.IsBlock.blockAddress_lt {n : Nat} (h : slot.IsBlock start step n) (hi : i ≤ n) :
    (blockAddress start step i).toNat < 0x3F00 := by
  have hbelow := h.below i hi
  rwa [toNat_blockAddress (Nat.lt_trans hbelow (by decide))]

theorem Board.IsBlock.of_le {n m : Nat} (h : slot.IsBlock start step n) (hm : m ≤ n) :
    slot.IsBlock start step m where
  below i hi := h.below i (Nat.le_trans hi hm)
  writable i hi := h.writable i (Nat.lt_of_lt_of_le hi hm)
  distinct i hi j hj := h.distinct i (Nat.lt_of_lt_of_le hi hm) j (Nat.lt_of_lt_of_le hj hm)

end

namespace Ppu

section

variable {C : Type} [Cartridge C]

/-- Set the address: read the status to begin a pair, and write both halves. -/
def setAddress (ppu : Ppu) (cartridge : C) (address : UInt16) : Ppu × C :=
  let (_, ppu, cartridge) := ppu.readRegister cartridge 0x2002
  let (ppu, cartridge) := ppu.writeRegister cartridge 0x2006 (Word.high address)
  ppu.writeRegister cartridge 0x2006 (Word.low address)

/-- Write bytes at `$2007`, one after the other. -/
def upload (ppu : Ppu) (cartridge : C) (bytes : List UInt8) : Ppu × C :=
  bytes.foldl (fun (ppu, cartridge) byte => ppu.writeRegister cartridge 0x2007 byte)
    (ppu, cartridge)

/-- Read at `$2007` so many times. -/
def download (ppu : Ppu) (cartridge : C) : Nat → List UInt8 × Ppu × C
  | 0 => ([], ppu, cartridge)
  | n + 1 =>
    let (bytes, ppu, cartridge) := ppu.download cartridge n
    let (byte, ppu, cartridge) := ppu.readRegister cartridge 0x2007
    (bytes ++ [byte], ppu, cartridge)

/-- An address takes effect as it is written. -/
theorem setAddress_eq (ppu : Ppu) (cartridge : C) {address : UInt16} (h : address.toNat < 0x4000) :
    ppu.setAddress cartridge address =
      ({ ppu with
        status.vblank := false
        v := address
        t := address
        secondWrite := false
        ioLatch := Word.low address }, cartridge) := by
  have hhigh : Word.high address % 0x40 = Word.high address := by
    apply UInt8.toNat_inj.mp
    rw [UInt8.toNat_mod, Word.toNat_high]
    simp only [UInt8.reduceToNat]
    omega
  have hbytes : Word.ofBytes (Word.low address)
      (Word.high (Word.ofBytes (Word.low ppu.t) (Word.high address % 0x40))) = address := by
    rw [Word.high_ofBytes, hhigh, Word.ofBytes_low_high]
  show ({ ppu with
    status.vblank := false
    v := Word.ofBytes (Word.low address)
      (Word.high (Word.ofBytes (Word.low ppu.t) (Word.high address % 0x40)))
    t := Word.ofBytes (Word.low address)
      (Word.high (Word.ofBytes (Word.low ppu.t) (Word.high address % 0x40)))
    secondWrite := false
    ioLatch := Word.low address }, cartridge) = _
  rw [hbytes]

end

/-! ## Writing a block -/

/-- What the state becomes when a block is written: its cells hold the bytes, and the unit is at
the address after it. -/
structure Uploaded (ppu : Ppu) (slot : Board) (bytes : List UInt8) (later : Ppu × Board) :
    Prop where
  v : later.1.v = blockAddress ppu.v ppu.control.increment bytes.length
  control : later.1.control = ppu.control
  readBuffer : later.1.readBuffer = ppu.readBuffer
  rewritten : slot.Rewritten later.2
  cells : ∀ i (h : i < bytes.length) cell,
    slot.cellAt (blockAddress ppu.v ppu.control.increment i) = some cell →
      cell.byte? later.1 later.2 = some bytes[i]

theorem writeRegister_data (ppu : Ppu) (slot : Board) (value : UInt8) :
    let later := ppu.writeRegister slot 0x2007 value
    later.1.v = (ppu.v + ppu.control.increment) % 0x8000 ∧
      later.1.control = ppu.control ∧ later.1.readBuffer = ppu.readBuffer ∧
      slot.Rewritten later.2 ∧
      ∀ cell : VramCell, cell.byte? later.1 later.2 =
        if slot.writableAt ppu.v = some cell then some (cell.kept value)
        else cell.byte? ppu slot := by
  obtain ⟨hppu, hslot⟩ := { ppu with ioLatch := value }.writeVram_changes slot ppu.v value
  have hbytes := { ppu with ioLatch := value }.byte?_writeVram slot ppu.v value
  refine ⟨congrArg (·.stepAddress.v) hppu, congrArg (·.stepAddress.control) hppu,
    congrArg (·.stepAddress.readBuffer) hppu, hslot, fun cell => ?_⟩
  have hcell := hbytes cell
  cases cell <;> exact hcell

/-- A block that is written lies in its cells. -/
theorem uploaded (ppu : Ppu) (slot : Board) {bytes : List UInt8}
    (h : slot.IsBlock ppu.v ppu.control.increment bytes.length) :
    ppu.Uploaded slot bytes (ppu.upload slot bytes) := by
  induction bytes using List.reverseRecOn with
  | nil =>
    exact ⟨(blockAddress_zero ..).symm, rfl, rfl, .refl slot,
      fun i hi => absurd hi (Nat.not_lt_zero i)⟩
  | append_singleton bytes byte ih =>
    rw [List.length_append, List.length_singleton] at h
    obtain ⟨hvAt, hcontrol, hbuffer, hslot, hcells⟩ := ih (h.of_le (Nat.le_succ _))
    have happend : ppu.upload slot (bytes ++ [byte]) =
        (ppu.upload slot bytes).1.writeRegister (ppu.upload slot bytes).2 0x2007 byte :=
      List.foldl_append
    rw [happend]
    generalize ppu.upload slot bytes = before at *
    obtain ⟨hvNext, hcontrol', hbuffer', hslot', hwritten⟩ :=
      before.1.writeRegister_data before.2 byte
    rw [hcontrol, hvAt] at hvNext
    rw [hvAt] at hwritten
    refine ⟨?_, hcontrol'.trans hcontrol, hbuffer'.trans hbuffer, hslot.trans hslot', ?_⟩
    · rw [hvNext, List.length_append]
      exact blockAddress_succ (h.below _ (Nat.le_succ _)) ppu.control.increment_le
    · intro i hi cell hcell
      rw [List.length_append, List.length_singleton] at hi
      rw [hwritten cell, hslot.writableAt]
      rcases Nat.lt_succ_iff_lt_or_eq.mp hi with hlt | rfl
      · have hother : slot.writableAt (blockAddress ppu.v ppu.control.increment bytes.length) ≠
            some cell := by
          intro hsame
          have hlast := (Board.writableAt_eq_some_iff.mp hsame).1
          have := h.distinct i hi _ (Nat.lt_succ_self _) (hcell.trans hlast.symm)
          omega
        rw [if_neg hother, hcells i hlt cell hcell, List.getElem_append_left hlt]
      · obtain ⟨written, hsame⟩ := h.writable _ hi
        have hlast := (Board.writableAt_eq_some_iff.mp hsame).1
        obtain rfl := Option.some.inj (hlast.symm.trans hcell)
        have hkept := (Board.cellAt_below (h.blockAddress_lt (Nat.le_succ _)) hcell ppu.mask byte).1
        rw [if_pos hsame, hkept, List.getElem_concat_length rfl]

/-! ## Reading a block -/

theorem readRegister_data (ppu : Ppu) (slot : Board) (h : ppu.v.toNat < 0x3F00) :
    ppu.readRegister slot 0x2007 =
      (ppu.readBuffer, { ppu with
        readBuffer := (ppu.readVram slot ppu.v).1
        v := (ppu.v + ppu.control.increment) % 0x8000
        ioLatch := ppu.readBuffer }, slot) := by
  have hplace : ppu.v % 0x4000 = ppu.v := by
    apply UInt16.toNat_inj.mp
    rw [UInt16.toNat_mod]
    exact Nat.mod_eq_of_lt (Nat.lt_trans h (by decide))
  have hpalette : ¬ 0x3F00 ≤ ppu.v := by
    rw [UInt16.le_iff_toNat_le]
    exact Nat.not_le.mpr h
  have hslot : (ppu.readVram slot ppu.v).2 = slot := by
    cases hcell : slot.cellAt ppu.v with
    | none => rw [readVram_none _ _ hcell]
    | some cell =>
      obtain ⟨byte, -, hread⟩ := ppu.readVram_cell slot hcell
      rw [hread]
  show (let data := ppu.readData slot
    (data.1, { data.2.1 with ioLatch := data.1 }, data.2.2)) = _
  simp only [readData, hplace, if_neg hpalette, hslot]
  rfl

/-- What has been read and what is in the buffer are what was in the buffer and what lies at the
addresses. -/
theorem download_buffered (ppu : Ppu) (slot : Board) (n : Nat)
    (h : ∀ i < n, ppu.v.toNat + i * ppu.control.increment.toNat < 0x3F00) :
    ∃ bytes last latch, ppu.download slot n =
        (bytes, { ppu with
          readBuffer := last
          v := blockAddress ppu.v ppu.control.increment n
          ioLatch := latch }, slot) ∧
      bytes ++ [last] = ppu.readBuffer :: (List.range n).map fun i =>
        (ppu.readVram slot (blockAddress ppu.v ppu.control.increment i)).1 := by
  induction n with
  | zero =>
    refine ⟨[], ppu.readBuffer, ppu.ioLatch, ?_, rfl⟩
    rw [blockAddress_zero]
    rfl
  | succ n ih =>
    obtain ⟨bytes, last, latch, hstate, hread⟩ := ih fun i hi => h i (Nat.lt_succ_of_lt hi)
    have hbelow := h n (Nat.lt_succ_self n)
    have hplace := toNat_blockAddress (Nat.lt_trans hbelow (by decide))
    have hnext := blockAddress_succ hbelow ppu.control.increment_le
    let place := blockAddress ppu.v ppu.control.increment n
    refine ⟨bytes ++ [last], (ppu.readVram slot place).1, last, ?_, ?_⟩
    · have hdata := readRegister_data
        { ppu with readBuffer := last, v := place, ioLatch := latch } slot (hplace ▸ hbelow)
      rw [download, hstate]
      show (let read := Ppu.readRegister _ slot 0x2007; (bytes ++ [read.1], read.2)) = _
      rw [hdata, ← hnext]
      rfl
    · rw [hread, List.range_succ, List.map_append]
      rfl

/-- What lies at the addresses of a block that has been written. -/
theorem Uploaded.readVram {ppu : Ppu} {slot : Board} {bytes : List UInt8} {later : Ppu × Board}
    (h : ppu.Uploaded slot bytes later)
    (hblock : slot.IsBlock ppu.v ppu.control.increment bytes.length) :
    ((List.range bytes.length).map fun i =>
      (later.1.readVram later.2 (blockAddress ppu.v ppu.control.increment i)).1) = bytes := by
  apply List.ext_getElem
  · rw [List.length_map, List.length_range]
  intro i _ hi
  rw [List.getElem_map, List.getElem_range]
  obtain ⟨cell, hwritable⟩ := hblock.writable i hi
  have hcell := (Board.writableAt_eq_some_iff.mp hwritable).1
  obtain ⟨byte, hbyte, hread⟩ :=
    later.1.readVram_cell later.2 ((h.rewritten.cellAt _).trans hcell)
  have hshown :=
    (Board.cellAt_below (hblock.blockAddress_lt (Nat.le_of_lt hi)) hcell later.1.mask byte).2
  rw [hread, hshown, ← Option.some_inj, ← hbyte]
  exact h.cells i hi cell hcell

/-- A block is read back behind the byte that was in the buffer. -/
theorem download_upload (ppu : Ppu) (slot : Board) (start : UInt16) (bytes : List UInt8)
    (h : slot.IsBlock start ppu.control.increment bytes.length) :
    let begun := ppu.setAddress slot start
    let written := begun.1.upload begun.2 bytes
    let again := written.1.setAddress written.2 start
    let read := again.1.download again.2 (bytes.length + 1)
    read.1 = ppu.readBuffer :: bytes ∧
      read.2.1.v.toNat = start.toNat + (bytes.length + 1) * ppu.control.increment.toNat := by
  have hstart : start.toNat < 0x4000 := by
    have := h.below 0 (Nat.zero_le _)
    omega
  intro begun written again read
  have hbegun : begun = _ := ppu.setAddress_eq slot hstart
  have hplace : begun.1.v = start := by rw [hbegun]
  have hstep : begun.1.control = ppu.control := by rw [hbegun]
  have hblock : begun.2.IsBlock begun.1.v begun.1.control.increment bytes.length := by
    rw [hbegun]
    exact h
  have hwritten : Uploaded begun.1 begun.2 bytes written := begun.1.uploaded begun.2 hblock
  have hbytes := hwritten.readVram hblock
  rw [hplace, hstep] at hbytes
  -- Setting the address again leaves the block where it is.
  have hagain : again = _ := written.1.setAddress_eq written.2 hstart
  have hv : again.1.v = start := by rw [hagain]
  have hcontrol : again.1.control = ppu.control := by rw [hagain, hwritten.control, hstep]
  have hbuffer : again.1.readBuffer = ppu.readBuffer := by
    rw [hagain, hwritten.readBuffer, hbegun]
  have hkept (address : UInt16) :
      again.1.readVram again.2 address = written.1.readVram written.2 address := by
    rw [hagain]
    rfl
  obtain ⟨taken, last, latch, hstate, hread⟩ :=
    again.1.download_buffered again.2 (bytes.length + 1) (by
      rw [hv, hcontrol]
      exact fun i hi => h.below i (Nat.le_of_lt_succ hi))
  have hresult : read = _ := hstate
  rw [hresult]
  constructor
  · rw [hv, hcontrol, hbuffer, List.range_succ, List.map_append] at hread
    simp only [hkept] at hread
    rw [hbytes] at hread
    exact (List.append_inj' (hread.trans (List.cons_append ..).symm) rfl).1
  · have hlast := h.below bytes.length (Nat.le_refl _)
    have hstep := ppu.control.increment_le
    have hnext : (bytes.length + 1) * ppu.control.increment.toNat =
        bytes.length * ppu.control.increment.toNat + ppu.control.increment.toNat :=
      Nat.succ_mul ..
    show (blockAddress again.1.v again.1.control.increment (bytes.length + 1)).toNat = _
    rw [hv, hcontrol]
    exact toNat_blockAddress (by omega)

/-- Three bytes down a column of tiles, from one nametable into the next. -/
theorem download_upload_column :
    let ppu := (powerOn .ntsc).writeControl 0x04
    let slot := Board.nrom (Nrom.new #[] #[] .vertical)
    let bytes : List UInt8 := [0x11, 0x22, 0x33]
    let begun := ppu.setAddress slot 0x23E0
    let written := begun.1.upload begun.2 bytes
    let again := written.1.setAddress written.2 0x23E0
    let read := again.1.download again.2 (bytes.length + 1)
    slot.IsBlock 0x23E0 ppu.control.increment bytes.length ∧
      read.1 = [0, 0x11, 0x22, 0x33] ∧ read.2.1.v.toNat = 0x2460 := by
  intro ppu slot bytes
  have hblock : slot.IsBlock 0x23E0 ppu.control.increment bytes.length := {
    below := by decide
    writable := fun i hi => Option.isSome_iff_exists.mp (by revert i; decide)
    distinct := by decide }
  obtain ⟨hread, hv⟩ := download_upload ppu slot 0x23E0 bytes hblock
  exact ⟨hblock, hread, hv.trans (by decide)⟩

end Ppu

end Famicom
