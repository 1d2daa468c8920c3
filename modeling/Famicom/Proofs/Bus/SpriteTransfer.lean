import Mathlib.Data.List.Induction
import Famicom.Proofs.Bus.Cells
import Famicom.Proofs.Cpu.Replay

/-!
# The transfer of a page to sprite memory

A write at `$4014` asks for a page to be copied to sprite memory, which is done once the cycles of
the instruction have passed. Sprite memory is filled from its current address on, which is back
where it was after 256 bytes. On a page that is memory and nothing else, nothing but sprite memory
changes, and the same could be had by as many writes at `$2004`.

* `Ppu.load_foldl_writeOam`: bytes that are stored one after the other.
* `Bus.SteadyPage`: a page that is memory and nothing else; `Bus.steadyPage_ram`,
  `Bus.steadyPage_board`.
* `Bus.transferPage_eq`, `Bus.foldl_write_oam`: what a transfer leaves, and what the writes leave.
* `Cpu.fillsSprites`: what an instruction leaves that asks for a page.
-/

namespace Famicom

open SystemBus

namespace SystemBus

variable {B : Type} [SystemBus B]

/-- The bytes of a page. -/
def pageBytes (bus : B) (page : UInt8) : List UInt8 :=
  (List.finRange 256).map fun offset => (read bus (Word.ofBytes (.ofFin offset) page)).1

theorem length_pageBytes (bus : B) (page : UInt8) : (pageBytes bus page).length = 256 := by
  rw [pageBytes, List.length_map, List.length_finRange]

theorem getElem?_pageBytes (bus : B) (page offset : UInt8) :
    (pageBytes bus page)[offset.toNat]? = some (read bus (Word.ofBytes offset page)).1 := by
  have hlt : offset.toNat < (List.finRange 256).length := by
    rw [List.length_finRange]
    exact offset.toNat_lt
  rw [pageBytes, List.getElem?_map, List.getElem?_eq_getElem hlt, List.getElem_finRange]
  rfl

end SystemBus

/-! ## Sprite memory -/

namespace Ppu

/-- Storing bytes changes sprite memory and moves its address on. -/
theorem foldl_writeOam_changes (ppu : Ppu) (bytes : List UInt8) :
    bytes.foldl writeOam ppu =
      { ppu with
        oam := (bytes.foldl writeOam ppu).oam
        oamAddress := ppu.oamAddress + .ofNat bytes.length } := by
  induction bytes generalizing ppu with
  | nil =>
    have hsame : ppu.oamAddress + .ofNat 0 = ppu.oamAddress := UInt8.add_zero _
    rw [List.length_nil, hsame]
    rfl
  | cons byte bytes ih =>
    have hnext : ppu.oamAddress + 1 + .ofNat bytes.length =
        ppu.oamAddress + .ofNat (bytes.length + 1) := by
      rw [UInt8.ofNat_add]
      grind
    rw [List.foldl_cons, ih, List.length_cons, ← hnext]
    rfl

/-- Up to as many bytes as there are cells, each is in the cell at its distance from the address,
even if this is beyond the last cell. -/
theorem load_foldl_writeOam (ppu : Ppu) {bytes : List UInt8} (hle : bytes.length ≤ 256) (i : Nat)
    (hi : i < bytes.length) :
    (bytes.foldl writeOam ppu).oam.load (ppu.oamAddress + .ofNat i).toNat = bytes[i] := by
  induction bytes using List.reverseRecOn with
  | nil => exact absurd hi (Nat.not_lt_zero i)
  | append_singleton bytes byte ih =>
    rw [List.length_append, List.length_singleton] at hle hi
    have haddress : (bytes.foldl writeOam ppu).oamAddress =
        ppu.oamAddress + .ofNat bytes.length := by
      rw [foldl_writeOam_changes]
    have hcell (n : Nat) : (ppu.oamAddress + .ofNat n).toNat =
        (ppu.oamAddress.toNat + n) % 256 := by
      rw [UInt8.toNat_add, UInt8.toNat_ofNat', Nat.add_mod_mod]
    rw [List.foldl_append, List.foldl_cons, List.foldl_nil, writeOam, Memory.load_store, haddress,
      hcell, hcell]
    by_cases hlast : i = bytes.length
    · rw [if_pos (by rw [hlast]), List.getElem_concat_length hlast]
    · have hearlier : i < bytes.length := by omega
      rw [if_neg (by omega), ← hcell, ih (by omega) hearlier, List.getElem_append_left hearlier]

end Ppu

/-! ## Pages -/

namespace Bus

variable {C A D : Type} [Cartridge C] [Apu A] [Controller D]

/-- A page that is memory and nothing else: to read it changes nothing, and what is read depends
neither on the picture unit nor on the sound unit. -/
def SteadyPage (bus : Bus C A D) (page : UInt8) : Prop :=
  ∀ (offset : UInt8) (ppu : Ppu) (apu : A) (dmaPage : Option UInt8),
    SystemBus.read { bus with ppu, apu, dmaPage } (Word.ofBytes offset page) =
      ((SystemBus.read bus (Word.ofBytes offset page)).1, { bus with ppu, apu, dmaPage })

theorem toNat_ofBytes_le (offset page : UInt8) :
    0x100 * page.toNat ≤ (Word.ofBytes offset page).toNat ∧
      (Word.ofBytes offset page).toNat < 0x100 * (page.toNat + 1) := by
  have hoffset := offset.toNat_lt
  rw [Word.toNat_ofBytes]
  omega

theorem steadyPage_ram (bus : Bus C A D) {page : UInt8} (h : page < 0x20) :
    bus.SteadyPage page := by
  intro offset ppu apu dmaPage
  have hpage : page.toNat < 0x20 := h
  have hlow : Word.ofBytes offset page < 0x2000 := by
    have hlt := (toNat_ofBytes_le offset page).2
    refine UInt16.lt_iff_toNat_lt.mpr (Nat.lt_of_lt_of_le hlt ?_)
    show 0x100 * (page.toNat + 1) ≤ 0x2000
    omega
  rw [read_ram _ hlow, read_ram _ hlow]

/-- From `$6000`, the processor reads the memory of a board without bank switching. -/
theorem read_nrom (bus : Bus Nrom A D) {address : UInt16} (h : 0x6000 ≤ address) :
    SystemBus.read bus address = (bus.cartridge.cpuLoad address, bus) := by
  have hnot {bound : UInt16} (hbound : bound ≤ 0x6000) := not_lt_of_programRam h hbound
  show Bus.read bus address = _
  rw [Bus.read, if_neg (hnot (by decide)), if_neg (hnot (by decide)), if_neg (hnot (by decide))]
  rfl

theorem steadyPage_board (bus : Bus Nrom A D) {page : UInt8} (h : 0x60 ≤ page) :
    bus.SteadyPage page := by
  intro offset ppu apu dmaPage
  have hpage : 0x60 ≤ page.toNat := h
  have hhigh : 0x6000 ≤ Word.ofBytes offset page := by
    have hle := (toNat_ofBytes_le offset page).1
    refine UInt16.le_iff_toNat_le.mpr (Nat.le_trans ?_ hle)
    show 0x6000 ≤ 0x100 * page.toNat
    omega
  rw [read_nrom _ hhigh, read_nrom _ hhigh]

/-- The bytes of such a page are stored one after the other. -/
theorem transferPage_eq {bus : Bus C A D} {page : UInt8} (h : bus.SteadyPage page) (ppu : Ppu)
    (apu : A) (dmaPage : Option UInt8) :
    transferPage { bus with ppu, apu, dmaPage } page =
      { bus with ppu := (pageBytes bus page).foldl Ppu.writeOam ppu, apu, dmaPage } := by
  unfold transferPage pageBytes
  rw [Fin.foldl_eq_finRange_foldl, List.foldl_map]
  generalize List.finRange 256 = offsets
  induction offsets generalizing ppu with
  | nil => rfl
  | cons offset rest ih =>
    have hbyte : transferByte page { bus with ppu, apu, dmaPage } (.ofFin offset) =
        { bus with
          ppu := ppu.writeOam (SystemBus.read bus (Word.ofBytes (.ofFin offset) page)).1
          apu, dmaPage } := by
      unfold transferByte
      rw [h]
      rfl
    rw [List.foldl_cons, hbyte, ih, List.foldl_cons]

/-- A write at `$2004` stores a byte, which stays on the data lines. -/
theorem write_oam (bus : Bus C A D) (value : UInt8) :
    SystemBus.write bus 0x2004 value =
      { bus with ppu := { bus.ppu.writeOam value with ioLatch := value } } := by
  show bus.writePpu 0x2004 value = _
  rfl

/-- But for the data lines, writes at `$2004` store bytes one after the other. -/
theorem foldl_write_oam (bus : Bus C A D) (bytes : List UInt8) (latch : UInt8) :
    let written := bytes.foldl (fun bus value => SystemBus.write bus 0x2004 value) bus
    { written with ppu.ioLatch := latch } =
      { bus with ppu := bytes.foldl Ppu.writeOam { bus.ppu with ioLatch := latch } } := by
  induction bytes generalizing bus with
  | nil => rfl
  | cons value bytes ih =>
    rw [List.foldl_cons, write_oam]
    exact ih _

theorem oamAddress_read (bus : Bus C A D) (address : UInt16) :
    (SystemBus.read bus address).2.ppu.oamAddress = bus.ppu.oamAddress := by
  rcases bus.read_ppu address with hppu | hppu
  · exact congrArg Ppu.oamAddress hppu
  · refine (congrArg Ppu.oamAddress hppu).trans ?_
    rw [Ppu.readRegister_changes]

/-- What is asked for by some writes, of which the latest comes first. -/
def requested (writes : List (UInt16 × UInt8)) : List UInt8 :=
  writes.filterMap fun w => if w.1 = 0x4014 then some w.2 else none

theorem dmaPage_read (bus : Bus C A D) (address : UInt16) :
    (SystemBus.read bus address).2.dmaPage = bus.dmaPage := by
  show (Bus.read bus address).2.dmaPage = _
  unfold read readIo
  repeat' first | rfl | split

theorem dmaPage_write (bus : Bus C A D) (address : UInt16) (value : UInt8) :
    (SystemBus.write bus address value).dmaPage =
      if address = 0x4014 then some value else bus.dmaPage := by
  show (Bus.write bus address value).dmaPage = _
  by_cases hrequest : address = 0x4014
  · subst hrequest
    rfl
  · rw [if_neg hrequest]
    unfold write writeIo
    simp only [hrequest, if_false]
    repeat' first | rfl | split

/-- After some accesses, the page is pending that was asked for last. -/
theorem dmaPage_replay (bus : Bus C A D) (accesses : List Access) :
    (replay bus accesses).dmaPage =
      (requested (accesses.filterMap Access.write?)).head?.or bus.dmaPage := by
  induction accesses with
  | nil => rfl
  | cons a accesses ih =>
    cases a with
    | read address => exact (dmaPage_read _ address).trans ih
    | write address value =>
      rw [replay, dmaPage_write, ih]
      simp only [requested, List.filterMap_cons, Access.write?]
      split <;> rfl

end Bus

/-! ## Instructions -/

namespace Cpu

variable {T C A D : Type} [Cartridge C] [Apu A] [Controller D] {cpu : Cpu T}

/-- `$4014` is not on the stack. -/
theorem transferRegister_ne (sp : UInt8) : (0x4014 : UInt16) ≠ stackAddress sp := by
  intro h
  have hlt := Bus.stackAddress_lt sp
  rw [← h] at hlt
  exact absurd hlt (by decide)

theorem serveTransfer_snd (cpu : Cpu T) (bus : Bus C A D) {page : UInt8}
    (h : bus.dmaPage = some page) :
    (cpu.serveTransfer bus).2.2 =
      clock (transferPage { bus with dmaPage := none } page) (transferCycles cpu.totalCycles) := by
  have htaken : takeDmaRequest bus = (some page, { bus with dmaPage := none }) := by
    show (bus.dmaPage, { bus with dmaPage := none }) = _
    rw [h]
  unfold serveTransfer
  rw [htaken]
  rfl

/-- What an instruction leaves that asks for a page: the page is in sprite memory, and nothing else
is changed by this apart from the time that the sound unit is told. -/
structure FillsSprites (cpu : Cpu T) (bus : Bus C A D) (page : UInt8) : Prop where
  /-- The bytes of the page lie from the sprite memory address on, beyond the last cell from the
  first. -/
  filled : ∀ offset : UInt8,
    (cpu.step bus).2.2.ppu.oam.load (bus.ppu.oamAddress + offset).toNat =
      (read (cpu.operated bus) (Word.ofBytes offset page)).1
  oamAddress : (cpu.step bus).2.2.ppu.oamAddress = bus.ppu.oamAddress
  dmaPage : (cpu.step bus).2.2.dmaPage = none
  /-- All else is as the operation has left it. -/
  rest : (cpu.step bus).2.2 =
    { cpu.operated bus with
      ppu := { (cpu.operated bus).ppu with oam := (cpu.step bus).2.2.ppu.oam }
      apu := (cpu.step bus).2.2.apu
      dmaPage := none }
  /-- As many writes at `$2004` would do the same, but that they leave the last byte on the data
  lines. -/
  writes :
    let written := (pageBytes (cpu.operated bus) page).foldl
      (fun bus value => write bus 0x2004 value) (cpu.operated bus)
    (cpu.step bus).2.2 =
      { written with
        ppu := { written.ppu with ioLatch := (cpu.operated bus).ppu.ioLatch }
        apu := (cpu.step bus).2.2.apu
        dmaPage := none }

/-- What an operation leaves that writes at `$4014`. -/
theorem operated_of_request {bus : Bus C A D} {page : UInt8}
    (h : (0x4014, page) ∈ cpu.stepWrites bus) :
    (cpu.operated bus).dmaPage = some page ∧
      (cpu.operated bus).ppu.oamAddress = bus.ppu.oamAddress := by
  obtain ⟨hrunning, hkil, honly⟩ := stepWrites_of_mem h transferRegister_ne
  have hwrites : (cpu.operated (Recorder.start bus)).accesses.filterMap Access.write? =
      [(0x4014, page)] := (writes_operated hrunning hkil).trans honly
  rw [operated_eq_replay]
  constructor
  · rw [Bus.dmaPage_replay, hwrites]
    rfl
  · refine replay_induction (P := fun later : Bus C A D =>
      later.ppu.oamAddress = bus.ppu.oamAddress) (fun later address hsame => ?_)
      (fun w hw later hsame => ?_) rfl
    · exact (later.oamAddress_read address).trans hsame
    · rw [hwrites, List.mem_singleton] at hw
      rw [hw]
      exact hsame

/-- The transfer after such an instruction: time passes before it and after it. -/
theorem step_of_request {bus : Bus C A D} {page : UInt8}
    (h : (0x4014, page) ∈ cpu.stepWrites bus) :
    ∃ before after : A, (cpu.step bus).2.2 =
      { transferPage { cpu.operated bus with apu := before, dmaPage := none } page with
        apu := after } := by
  obtain ⟨hrunning, hkil, -⟩ := stepWrites_of_mem h transferRegister_ne
  have hpending := (operated_of_request h).1
  obtain ⟨later, cycles, hstep⟩ := step_eq_serveTransfer hrunning hkil
  have hclocked : (clock (cpu.operated bus) cycles).dmaPage = some page := hpending
  rw [hstep, later.serveTransfer_snd _ hclocked]
  exact ⟨_, _, rfl⟩

/-- An instruction that asks for a steady page leaves it in sprite memory. -/
theorem fillsSprites {bus : Bus C A D} {page : UInt8} (h : (0x4014, page) ∈ cpu.stepWrites bus)
    (hsteady : (cpu.operated bus).SteadyPage page) : cpu.FillsSprites bus page := by
  obtain ⟨before, after, hstep⟩ := step_of_request h
  have haddress := (operated_of_request h).2
  rw [Bus.transferPage_eq hsteady] at hstep
  have hbyte := getElem?_pageBytes (cpu.operated bus) page
  have hlength := length_pageBytes (cpu.operated bus) page
  have hwrites := (cpu.operated bus).foldl_write_oam (pageBytes (cpu.operated bus) page)
    (cpu.operated bus).ppu.ioLatch
  generalize hbytes : pageBytes (cpu.operated bus) page = bytes at hstep hbyte hlength hwrites
  have hchanges := Ppu.foldl_writeOam_changes (cpu.operated bus).ppu bytes
  have hload := Ppu.load_foldl_writeOam (cpu.operated bus).ppu (Nat.le_of_eq hlength)
  -- after 256 bytes, the address is back where it was
  have hround : (cpu.operated bus).ppu.oamAddress + .ofNat 256 =
      (cpu.operated bus).ppu.oamAddress := UInt8.add_zero _
  rw [hlength, hround] at hchanges
  refine ⟨fun offset => ?_, ?_, ?_, ?_, ?_⟩
  · obtain ⟨hlt, hoffset⟩ := List.getElem?_eq_some_iff.mp (hbyte offset)
    have hfilled := hload offset.toNat hlt
    rw [UInt8.ofNat_toNat, haddress, hoffset] at hfilled
    rw [hstep]
    exact hfilled
  · rw [hstep]
    exact (congrArg Ppu.oamAddress hchanges).trans haddress
  · rw [hstep]
  · rw [hstep]
    exact congrArg
      (fun ppu => { cpu.operated bus with ppu, apu := after, dmaPage := none }) hchanges
  · rw [hbytes, hstep]
    exact congrArg (fun bus : Bus C A D => { bus with apu := after, dmaPage := none }) hwrites.symm

end Cpu

end Famicom
