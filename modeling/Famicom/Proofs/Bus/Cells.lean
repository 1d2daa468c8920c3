import Famicom.Cartridge.Nrom
import Famicom.Proofs.Cpu.Writes

/-!
# Memory cells on the bus

At many addresses of the bus lies a memory cell: reading it changes nothing, and gives the byte that
was written last. The stack consists of such cells, in one page of work RAM. Below a pointer lies
what has been pushed, the latest byte first, until the page has been gone through once.

* `SystemBus.IsCell`: a memory cell.
* `Bus.isCell_ram`, `Bus.isCell_programRam`: work RAM and the RAM of a board consist of them.
* `WorkRam.SameBut`: a memory that differs in some cells only.
* `WorkRam.Stacked`, `WorkRam.Stacked.store`: what lies on the stack, and how a push adds to it.
* `Bus.unwritten_perform`: once its effect has been performed, an instruction writes nothing more.
-/

namespace Famicom

open SystemBus

/-- At an address lies a memory cell: a read changes nothing, and gives the byte written last. -/
structure SystemBus.IsCell {B : Type} [SystemBus B] (bus : B) (address : UInt16) : Prop where
  read : (SystemBus.read bus address).2 = bus
  write : ∀ value, SystemBus.read (SystemBus.write bus address value) address =
    (value, SystemBus.write bus address value)

/-! ## Work RAM -/

namespace WorkRam

/-- Two states of the memory that agree but for the cells at some addresses. -/
def SameBut (cells : List UInt16) (ram later : WorkRam) : Prop :=
  ∀ address : Nat, (∀ cell ∈ cells, cell.toNat % 0x800 ≠ address % 0x800) →
    later.load address = ram.load address

variable {ram later last : WorkRam} {cells others : List UInt16}

theorem SameBut.refl (ram : WorkRam) : ram.SameBut [] ram := fun _ _ => rfl

/-- A store adds one cell to those that differ. -/
theorem SameBut.store (h : ram.SameBut cells later) (cell : UInt16) (value : UInt8) :
    ram.SameBut (cells ++ [cell]) (later.store cell.toNat value) := by
  intro address hcells
  have hcell : cell.toNat % 0x800 ≠ address % 0x800 :=
    hcells cell (List.mem_append_right _ (List.mem_singleton_self _))
  rw [Memory.load_store, if_neg hcell]
  exact h address fun other hother => hcells other (List.mem_append_left _ hother)

/-! ## The stack -/

theorem toNat_stackAddress (sp : UInt8) : (stackAddress sp).toNat = 0x100 + sp.toNat := by
  have hlt := sp.toNat_lt
  simp only [stackAddress, UInt16.toNat_add, UInt8.toNat_toUInt16, UInt16.reduceToNat]
  omega

/-- Two pointers name one cell only if they are equal. -/
theorem load_store_stack (ram : WorkRam) (sp other : UInt8) (value : UInt8) :
    (ram.store (stackAddress sp).toNat value).load (stackAddress other).toNat =
      if sp = other then value else ram.load (stackAddress other).toNat := by
  have hsp := sp.toNat_lt
  have hother := other.toNat_lt
  have hcell : (stackAddress sp).toNat % 0x800 = (stackAddress other).toNat % 0x800 ↔
      sp = other := by
    rw [toNat_stackAddress, toNat_stackAddress, ← UInt8.toNat_inj]
    omega
  rw [Memory.load_store]
  simp only [hcell]

/-- Cells are counted from a pointer or from the next one, round the page. -/
theorem succ_add_ofNat (sp : UInt8) (k : Nat) :
    sp + 1 + UInt8.ofNat k = sp + UInt8.ofNat (k + 1) := by
  rw [UInt8.ofNat_add k 1]
  grind

/-- What lies on the stack above a pointer, the topmost byte first. -/
def Stacked (ram : WorkRam) (sp : UInt8) (bytes : List UInt8) : Prop :=
  ∀ k (hk : k < bytes.length),
    ram.load (stackAddress (sp + UInt8.ofNat (k + 1))).toNat = bytes[k]

theorem stacked_nil (ram : WorkRam) (sp : UInt8) : ram.Stacked sp [] := fun _ hk => nomatch hk

/-- A push puts a byte on top of the others, unless these fill the page. -/
theorem Stacked.store {sp : UInt8} {bytes : List UInt8} (h : ram.Stacked sp bytes)
    (hlength : bytes.length < 0x100) (value : UInt8) :
    Stacked (ram.store (stackAddress sp).toNat value) (sp - 1) (value :: bytes) := by
  intro k hk
  rw [load_store_stack]
  cases k with
  | zero =>
    have htop : sp = sp - 1 + UInt8.ofNat (0 + 1) := (UInt8.sub_add_cancel sp 1).symm
    exact if_pos htop
  | succ k =>
    have hk' : k < bytes.length := Nat.lt_of_succ_lt_succ hk
    have hcell : sp - 1 + UInt8.ofNat (k + 1 + 1) = sp + UInt8.ofNat (k + 1) := by
      rw [← succ_add_ofNat, UInt8.sub_add_cancel]
    have hapart : sp ≠ sp + UInt8.ofNat (k + 1) := by
      intro hsame
      have hsum := congrArg UInt8.toNat hsame
      have hlt := sp.toNat_lt
      rw [UInt8.toNat_add, UInt8.toNat_ofNat'] at hsum
      omega
    rw [hcell, if_neg hapart]
    exact h k hk'

/-- Above the topmost byte lie the others. -/
theorem Stacked.pop {sp byte : UInt8} {below : List UInt8} (h : ram.Stacked sp (byte :: below)) :
    ram.load (stackAddress (sp + 1)).toNat = byte ∧ ram.Stacked (sp + 1) below := by
  refine ⟨h 0 (Nat.zero_lt_succ _), fun k hk => ?_⟩
  rw [succ_add_ofNat]
  exact h (k + 1) (Nat.succ_lt_succ hk)

/-- On top of the others lies a byte. -/
theorem Stacked.cons {sp byte : UInt8} {below : List UInt8} (h : ram.Stacked (sp + 1) below)
    (hbyte : ram.load (stackAddress (sp + 1)).toNat = byte) :
    ram.Stacked sp (byte :: below) := by
  intro k hk
  cases k with
  | zero => exact hbyte
  | succ k =>
    rw [← succ_add_ofNat]
    exact h k (Nat.lt_of_succ_lt_succ hk)

/-- The topmost bytes are a stack without the others. -/
theorem Stacked.take {sp : UInt8} {bytes : List UInt8} (h : ram.Stacked sp bytes) (count : Nat) :
    ram.Stacked sp (bytes.take count) := by
  intro k hk
  have hk' : k < bytes.length := Nat.lt_of_lt_of_le hk (List.length_take_le' _ _)
  rw [List.getElem_take]
  exact h k hk'

end WorkRam

namespace Bus

variable {C A D : Type} [Cartridge C] [Apu A] [Controller D]

/-! ## Where cells lie -/

theorem read_ram (bus : Bus C A D) {address : UInt16} (h : address < 0x2000) :
    SystemBus.read bus address = (bus.ram.load address.toNat, bus) :=
  if_pos h

theorem write_ram (bus : Bus C A D) {address : UInt16} (h : address < 0x2000) (value : UInt8) :
    SystemBus.write bus address value = { bus with ram := bus.ram.store address.toNat value } :=
  if_pos h

/-- Work RAM consists of cells, wherever it is repeated. -/
theorem isCell_ram (bus : Bus C A D) {address : UInt16} (h : address < 0x2000) :
    IsCell bus address where
  read := by rw [bus.read_ram h]
  write value := by
    rw [bus.write_ram h, read_ram _ h]
    dsimp only
    rw [Memory.load_store, if_pos rfl]

section

variable {address : UInt16}

theorem not_lt_of_programRam (hlow : 0x6000 ≤ address) {bound : UInt16} (hbound : bound ≤ 0x6000) :
    ¬ address < bound :=
  UInt16.not_lt.mpr (UInt16.le_trans hbound hlow)

theorem read_programRam (bus : Bus Nrom A D) (hlow : 0x6000 ≤ address) (hhigh : address < 0x8000) :
    SystemBus.read bus address = (bus.cartridge.programRam.load address.toNat, bus) := by
  have hnot {bound : UInt16} (hbound : bound ≤ 0x6000) := not_lt_of_programRam hlow hbound
  show Bus.read bus address = _
  rw [Bus.read, if_neg (hnot (by decide)), if_neg (hnot (by decide)), if_neg (hnot (by decide))]
  show (bus.cartridge.cpuLoad address, bus) = _
  rw [Nrom.cpuLoad, if_neg (UInt16.not_le.mpr hhigh), if_pos hlow]

theorem write_programRam (bus : Bus Nrom A D) (hlow : 0x6000 ≤ address) (hhigh : address < 0x8000)
    (value : UInt8) :
    SystemBus.write bus address value =
      { bus with
        cartridge.programRam := bus.cartridge.programRam.store address.toNat value } := by
  have hnot {bound : UInt16} (hbound : bound ≤ 0x6000) := not_lt_of_programRam hlow hbound
  show Bus.write bus address value = _
  rw [Bus.write, if_neg (hnot (by decide)), if_neg (hnot (by decide)), if_neg (hnot (by decide))]
  show { bus with cartridge := bus.cartridge.cpuStore address value } = _
  rw [Nrom.cpuStore, if_pos ⟨hlow, hhigh⟩]

/-- So does the RAM of a board without bank switching. -/
theorem isCell_programRam (bus : Bus Nrom A D) (hlow : 0x6000 ≤ address)
    (hhigh : address < 0x8000) : IsCell bus address where
  read := by rw [bus.read_programRam hlow hhigh]
  write value := by
    rw [bus.write_programRam hlow hhigh, read_programRam _ hlow hhigh]
    dsimp only
    rw [Memory.load_store, if_pos rfl]

end

/-! ## The stack -/

theorem stackAddress_lt (sp : UInt8) : stackAddress sp < 0x2000 := by
  have hlt := sp.toNat_lt
  rw [UInt16.lt_iff_toNat_lt, WorkRam.toNat_stackAddress]
  show 0x100 + sp.toNat < 0x2000
  omega

/-- A push stores a byte in work RAM. -/
theorem push_eq (bus : Bus C A D) (r : Registers) (value : UInt8) :
    r.push bus value =
      ({ r with sp := r.sp - 1 },
        { bus with ram := bus.ram.store (stackAddress r.sp).toNat value }) := by
  rw [Registers.push, bus.write_ram (stackAddress_lt _)]

/-- A pull loads one, and changes nothing but the pointer. -/
theorem pull_eq (bus : Bus C A D) (r : Registers) :
    r.pull bus =
      (bus.ram.load (stackAddress (r.sp + 1)).toNat, { r with sp := r.sp + 1 }, bus) := by
  rw [Registers.pull]
  dsimp only
  rw [bus.read_ram (stackAddress_lt _)]

/-- What is pulled is the topmost byte of the stack. -/
theorem pull_of_stacked (bus : Bus C A D) {r : Registers} {byte : UInt8} {below : List UInt8}
    (h : bus.ram.Stacked r.sp (byte :: below)) :
    r.pull bus = (byte, { r with sp := r.sp + 1 }, bus) := by
  rw [bus.pull_eq, h.pop.1]

/-! ## Around the effect of an instruction -/

section

variable {T M : Type} {memory : C → M}
  (hcpu : ∀ cartridge address, memory (Cartridge.cpuRead cartridge address).2 = memory cartridge)
  (hppu : ∀ cartridge address, memory (Cartridge.ppuRead cartridge address).2 = memory cartridge)
include hcpu hppu

/-- A transfer to sprite memory writes nothing else. -/
theorem unwritten_serveTransfer (bus : Bus C A D) (cpu : Cpu T) :
    bus.Unwritten memory (cpu.serveTransfer bus).2.2 := by
  have hwrites : (cpu.serveTransfer (Recorder.start bus)).2.2.writes = [] :=
    Recorder.writes_serveTransfer _ cpu
  refine (bus.keeps_unwritten hcpu hppu).of_natural
    (fun bus => (((cpu.serveTransfer bus).1, (cpu.serveTransfer bus).2.1),
      (cpu.serveTransfer bus).2.2)) (fun hf bus => ?_) (.refl memory bus) ?_
  · simp only [hf.serveTransfer cpu bus]
  · exact List.filterMap_eq_nil_iff.mp hwrites

/-- Before its effect is performed, an instruction only reads. -/
theorem unwritten_nextOperand (bus : Bus C A D) (cpu : Cpu T) :
    bus.Unwritten memory (cpu.nextOperand bus).2.2 := by
  have hresolve (bus : Bus C A D) (mode : AddressingMode) (r : Registers) :
      bus.Unwritten memory (mode.resolve r bus).2.2 := by
    refine (bus.keeps_unwritten hcpu hppu).of_natural
      (fun bus => (((mode.resolve r bus).1, (mode.resolve r bus).2.1), (mode.resolve r bus).2.2))
      (fun hf bus => ?_) (.refl memory bus) ?_
    · simp only [hf.resolve mode r bus]
    · exact List.filterMap_eq_nil_iff.mp
        (Recorder.writes_eq_nil (Recorder.targets_resolve (Recorder.start bus) mode r))
  exact (unwritten_read hcpu hppu bus _).trans (hresolve _ _ _)

/-- Once its effect has been performed, an instruction writes nothing more. -/
theorem unwritten_perform (bus : Bus C A D) (cpu : Cpu T) (opcode : Opcode) (operand : Operand) :
    (opcode.operation.effect.run operand cpu.registers bus).2.Unwritten memory
      (cpu.perform bus opcode operand).2.2 := by
  have hclock (bus : Bus C A D) (cycles : Nat) :
      bus.Unwritten memory (SystemBus.clock bus cycles) :=
    (bus.keeps_unwritten hcpu hppu).clock bus cycles (.refl memory bus)
  exact (hclock _ _).trans (unwritten_serveTransfer hcpu hppu _ _)

end

/-- In particular, what it leaves in work RAM is what its effect leaves there. -/
theorem ram_perform {T : Type} (bus : Bus C A D) (cpu : Cpu T) (opcode : Opcode)
    (operand : Operand) :
    (cpu.perform bus opcode operand).2.2.ram =
      (opcode.operation.effect.run operand cpu.registers bus).2.ram := by
  have hunwritten : Unwritten (fun _ => ()) _ _ :=
    unwritten_perform (fun _ _ => rfl) (fun _ _ => rfl) bus cpu opcode operand
  exact hunwritten.ram

/-- Reading leaves work RAM alone. -/
theorem ram_read (bus : Bus C A D) (address : UInt16) :
    (SystemBus.read bus address).2.ram = bus.ram := by
  have hunwritten : Unwritten (fun _ => ()) _ _ :=
    unwritten_read (fun _ _ => rfl) (fun _ _ => rfl) bus address
  exact hunwritten.ram

theorem ram_nextOperand {T : Type} (bus : Bus C A D) (cpu : Cpu T) :
    (cpu.nextOperand bus).2.2.ram = bus.ram := by
  have hunwritten : Unwritten (fun _ => ()) _ _ :=
    unwritten_nextOperand (fun _ _ => rfl) (fun _ _ => rfl) bus cpu
  exact hunwritten.ram

end Bus

end Famicom
