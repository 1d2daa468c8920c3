import Famicom.Proofs.Cpu.Timetable
import Famicom.Proofs.Ppu.Pipeline

/-!
# What an instruction writes

Most instructions write nothing. Those that do write at an address that is known before the effect:
that of the operand, or that of a cell of the stack. A page that is copied to sprite memory after an
instruction is read, but not written.

* `Effect.targets`: the addresses that an effect writes.
* `Cpu.targets`: the addresses that an instruction writes.
* `Bus.Unwritten`: two states of a bus that agree in what only a write changes.
* `Cpu.writesListed`: which operation writes where, and that the others change nothing by writing.
-/

namespace Famicom

open SystemBus

variable {T B : Type} [SystemBus B]

/-! ## The operations that write -/

namespace Operation

/-- The operations that store a register. -/
def stores : List Operation := [.sta, .stx, .sty, .sax]

/-- The operations that replace their operand. -/
def modifications : List Operation :=
  [.inc, .dec, .asl, .lsr, .rol, .ror, .slo, .rla, .sre, .rra, .dcp, .isc]

/-- The operations that store what the address lets through. -/
def maskedStores : List Operation := [.shx, .shy, .ahx, .tas]

/-- The operations that push a register. -/
def pushes : List Operation := [.pha, .php]

/-- All operations that write. -/
def writing : List Operation :=
  stores ++ modifications ++ maskedStores ++ pushes ++ [.jsr, .brk]

end Operation

/-! ## Effects -/

/-- The addresses that an effect writes, in their order. -/
def Effect.targets (effect : Effect) (operand : Operand) (r : Registers) : List UInt16 :=
  match effect with
  | store _ => [operand.address]
  | modify .. =>
    match operand with
    | .inline _ => []
    | operand => [operand.address]
  | storeMasked index value prepare =>
    let r := prepare r
    [maskedAddress operand (maskedValue operand.address (index r) (value r))]
  | push _ => [stackAddress r.sp]
  | call => [stackAddress r.sp, stackAddress (r.sp - 1)]
  | softwareInterrupt => [stackAddress r.sp, stackAddress (r.sp - 1), stackAddress (r.sp - 1 - 1)]
  | _ => []

namespace Recorder

/-- The addresses that have been written, in their order. -/
def targets (r : Recorder B) : List UInt16 := (r.writes.map Prod.fst).reverse

omit [SystemBus B] in
theorem writes_eq_nil {r : Recorder B} (h : r.targets = []) : r.writes = [] := by
  rwa [targets, List.reverse_eq_nil_iff, List.map_eq_nil_iff] at h

theorem targets_load (recorder : Recorder B) (operand : Operand) :
    (operand.load recorder).2.targets = recorder.targets := by
  cases operand <;> rfl

theorem targets_resolve (recorder : Recorder B) (mode : AddressingMode) (r : Registers) :
    (mode.resolve r recorder).2.2.targets = recorder.targets := by
  cases mode <;> rfl

theorem targets_write (recorder : Recorder B) (address : UInt16) (value : UInt8) :
    (write recorder address value).targets = recorder.targets ++ [address] := by
  show (address :: recorder.writes.map Prod.fst).reverse = _
  rw [List.reverse_cons]
  rfl

theorem targets_push (recorder : Recorder B) (r : Registers) (value : UInt8) :
    (r.push recorder value).2.targets = recorder.targets ++ [stackAddress r.sp] :=
  recorder.targets_write _ value

theorem targets_pushWord (recorder : Recorder B) (r : Registers) (value : UInt16) :
    (r.pushWord recorder value).2.targets =
      recorder.targets ++ [stackAddress r.sp, stackAddress (r.sp - 1)] := by
  show ((({ r with sp := r.sp - 1 } : Registers).push (r.push recorder _).2 _).2).targets = _
  rw [targets_push, targets_push, List.append_assoc]
  rfl

theorem targets_interrupt (recorder : Recorder B) (r : Registers) (vector : UInt16)
    (software : Bool) :
    (r.interrupt recorder vector software).2.targets =
      recorder.targets ++
        [stackAddress r.sp, stackAddress (r.sp - 1), stackAddress (r.sp - 1 - 1)] := by
  have hpushed := targets_push (r.pushWord recorder r.pc).2 (r.pushWord recorder r.pc).1
    ((r.pushWord recorder r.pc).1.p.pushed software)
  rw [targets_pushWord, List.append_assoc] at hpushed
  exact hpushed

/-- An effect writes its targets. -/
theorem targets_run (recorder : Recorder B) (effect : Effect) (operand : Operand)
    (r : Registers) :
    (effect.run operand r recorder).2.targets = recorder.targets ++ effect.targets operand r := by
  cases effect with
  | store value => exact recorder.targets_write operand.address (value r)
  | modify f absorb =>
    cases operand with
    | inline value => exact (List.append_nil _).symm
    | _ => exact targets_write (read recorder _).2 _ _
  | storeMasked index value prepare => exact recorder.targets_write _ _
  | push value => exact recorder.targets_push r (value r)
  | call => exact recorder.targets_pushWord r (r.pc - 1)
  | softwareInterrupt => exact recorder.targets_interrupt { r with pc := r.pc + 1 } _ true
  | load f => exact (recorder.targets_load operand).trans (List.append_nil _).symm
  | _ => exact (List.append_nil _).symm

end Recorder

/-- A modified operand in memory is read once before it is written. -/
theorem Effect.accesses_modify (f : UInt8 → Status → UInt8 × Status)
    (absorb : Registers → UInt8 → Registers) (address : UInt16) (crossed : Bool) (r : Registers)
    (recorder : Recorder B) :
    ∃ value, ((Effect.modify f absorb).run (.memory address crossed) r recorder).2.accesses =
      .write address value :: .read address :: recorder.accesses :=
  ⟨_, rfl⟩

namespace Operation

variable {operation : Operation}

theorem targets_of_store (h : operation ∈ stores) (operand : Operand) (r : Registers) :
    operation.effect.targets operand r = [operand.address] := by
  simp only [stores, List.mem_cons, List.not_mem_nil, or_false] at h
  rcases h with rfl | rfl | rfl | rfl <;> rfl

theorem effect_of_modification (h : operation ∈ modifications) :
    ∃ f absorb, operation.effect = .modify f absorb := by
  simp only [modifications, List.mem_cons, List.not_mem_nil, or_false] at h
  rcases h with rfl | rfl | rfl | rfl | rfl | rfl | rfl | rfl | rfl | rfl | rfl | rfl <;>
    exact ⟨_, _, rfl⟩

theorem targets_of_maskedStore (h : operation ∈ maskedStores) (operand : Operand)
    (r : Registers) :
    ∃ written, operation.effect.targets operand r = [Effect.maskedAddress operand written] := by
  simp only [maskedStores, List.mem_cons, List.not_mem_nil, or_false] at h
  rcases h with rfl | rfl | rfl | rfl <;> exact ⟨_, rfl⟩

theorem targets_of_push (h : operation ∈ pushes) (operand : Operand) (r : Registers) :
    operation.effect.targets operand r = [stackAddress r.sp] := by
  simp only [pushes, List.mem_cons, List.not_mem_nil, or_false] at h
  rcases h with rfl | rfl <;> rfl

theorem ne_kil (h : operation ∈ writing) : operation ≠ .kil := by
  rintro rfl
  exact absurd h (by decide)

theorem targets_of_notMem (h : operation ∉ writing) (operand : Operand) (r : Registers) :
    operation.effect.targets operand r = [] := by
  cases operation <;> first | rfl | exact absurd (by decide) h

end Operation

/-! ## Operands in memory -/

/-- The modes whose operand is in the processor already, or that have none. -/
def AddressingMode.withoutAddress : List AddressingMode := [.implied, .accumulator, .immediate]

/-- All other modes name an address. -/
theorem AddressingMode.exists_address {mode : AddressingMode} (h : mode ∉ withoutAddress)
    (r : Registers) (bus : B) :
    ∃ address crossed, (mode.resolve r bus).1 = .memory address crossed := by
  cases mode <;> first | exact ⟨_, _, rfl⟩ | exact absurd (by decide) h

theorem AddressingMode.sp_resolve (mode : AddressingMode) (r : Registers) (bus : B) :
    (mode.resolve r bus).2.1.sp = r.sp := by
  cases mode <;> rfl

namespace Opcode

/-- What is stored, is stored in memory. -/
theorem mode_of_store (code : UInt8) :
    (ofByte code).operation ∈ Operation.stores ++ Operation.maskedStores →
      (ofByte code).mode ∉ AddressingMode.withoutAddress := by
  refine forall_of_table (P := fun opcode =>
    opcode.operation ∈ Operation.stores ++ Operation.maskedStores →
      opcode.mode ∉ AddressingMode.withoutAddress) ?_ code
  decide +kernel

/-- What is modified is in memory, unless it is the accumulator. -/
theorem mode_of_modification (code : UInt8) :
    (ofByte code).operation ∈ Operation.modifications → (ofByte code).mode ≠ .accumulator →
      (ofByte code).mode ∉ AddressingMode.withoutAddress := by
  refine forall_of_table (P := fun opcode =>
    opcode.operation ∈ Operation.modifications → opcode.mode ≠ .accumulator →
      opcode.mode ∉ AddressingMode.withoutAddress) ?_ code
  decide +kernel

end Opcode

/-- The address of a cell of the stack. -/
theorem stackAddress_eq : ∀ sp : UInt8, stackAddress sp = 0x100 ||| sp.toUInt16 :=
  Byte.forall_of_fin (by decide +kernel)

/-! ## Instructions -/

namespace Cpu

/-- The addresses that the next instruction writes, in their order. -/
def targets (cpu : Cpu T) (bus : B) : List UInt16 := (cpu.step (Recorder.start bus)).2.2.targets

theorem nextOperand_start (cpu : Cpu T) (bus : B) :
    cpu.nextOperand bus = ((cpu.nextOperand (Recorder.start bus)).1,
      (cpu.nextOperand (Recorder.start bus)).2.1, (cpu.nextOperand (Recorder.start bus)).2.2.bus) :=
  Recorder.busMap_bus.resolve _ _ (read (Recorder.start bus) cpu.registers.pc).2

theorem sp_nextOperand (cpu : Cpu T) (bus : B) :
    (cpu.nextOperand bus).2.1.sp = cpu.registers.sp :=
  AddressingMode.sp_resolve _ _ _

theorem targets_of_jammed {cpu : Cpu T} (h : cpu.jammed = true) (bus : B) :
    cpu.targets bus = [] := by
  rw [targets, step_of_jammed h]
  rfl

theorem targets_of_kil {cpu : Cpu T} {bus : B} (hrunning : cpu.jammed = false)
    (hkil : (cpu.nextOpcode bus).operation = .kil) : cpu.targets bus = [] := by
  have hstep : cpu.step (Recorder.start bus) = _ := step_of_kil hrunning hkil
  rw [targets, hstep]
  unfold jam
  dsimp only
  cases cpu.jamBehavior <;> exact Recorder.targets_resolve _ _ _

/-- An instruction writes the targets of its effect. -/
theorem targets_of_running {cpu : Cpu T} {bus : B} (hrunning : cpu.jammed = false)
    (hkil : (cpu.nextOpcode bus).operation ≠ .kil) :
    cpu.targets bus = (cpu.nextOpcode bus).operation.effect.targets (cpu.nextOperand bus).1
      (cpu.nextOperand bus).2.1 := by
  have hstep : cpu.step (Recorder.start bus) = _ := step_of_running hrunning hkil
  have hresolve : (cpu.nextOperand (Recorder.start bus)).2.2.targets = [] :=
    Recorder.targets_resolve _ _ _
  rw [targets, Recorder.targets, hstep, Recorder.writes_perform, cpu.nextOperand_start bus]
  refine (Recorder.targets_run _ _ _ _).trans ?_
  rw [hresolve]
  rfl

theorem targets_of_mem {cpu : Cpu T} {bus : B} {operations : List Operation}
    (hrunning : cpu.jammed = false) (hop : (cpu.nextOpcode bus).operation ∈ operations)
    (hwriting : operations ⊆ Operation.writing := by decide) :
    cpu.targets bus = (cpu.nextOpcode bus).operation.effect.targets (cpu.nextOperand bus).1
      (cpu.nextOperand bus).2.1 :=
  targets_of_running hrunning (Operation.ne_kil (hwriting hop))

/-- Where an operand is in memory, its address decides on the targets. -/
theorem exists_targets {cpu : Cpu T} {bus : B} {operations : List Operation}
    (hrunning : cpu.jammed = false) (hop : (cpu.nextOpcode bus).operation ∈ operations)
    (hmode : (cpu.nextOpcode bus).mode ∉ AddressingMode.withoutAddress)
    (hwriting : operations ⊆ Operation.writing := by decide) :
    ∃ address crossed, (cpu.nextOperand bus).1 = .memory address crossed ∧
      cpu.targets bus = (cpu.nextOpcode bus).operation.effect.targets (.memory address crossed)
        (cpu.nextOperand bus).2.1 := by
  obtain ⟨address, crossed, hoperand⟩ := AddressingMode.exists_address hmode
    { cpu.registers with pc := cpu.registers.pc + 1 } (read bus cpu.registers.pc).2
  refine ⟨address, crossed, hoperand, ?_⟩
  rw [targets_of_mem hrunning hop hwriting, ← hoperand]
  rfl

/-- A modification reads its operand once, and then writes it. -/
theorem accesses_operated {cpu : Cpu T} {bus : B}
    (hop : (cpu.nextOpcode bus).operation ∈ Operation.modifications) {address : UInt16}
    {crossed : Bool} (hoperand : (cpu.nextOperand bus).1 = .memory address crossed) :
    ∃ value, (cpu.operated (Recorder.start bus)).accesses =
      .write address value :: .read address ::
        (cpu.nextOperand (Recorder.start bus)).2.2.accesses := by
  obtain ⟨f, absorb, heffect⟩ := Operation.effect_of_modification hop
  have hnoticed : (cpu.nextOpcode (Recorder.start bus)).operation.effect = .modify f absorb :=
    heffect
  rw [cpu.nextOperand_start bus] at hoperand
  rw [operated, hnoticed, hoperand]
  exact Effect.accesses_modify f absorb address crossed _ _

/-- What is a property of the bus whatever is read, an instruction that writes nothing keeps. -/
theorem keeps_of_targets {cpu : Cpu T} {bus : B} (h : cpu.targets bus = []) {P : B → Prop}
    (hkeeps : Keeps (fun a => a.write? = none) P) (hp : P bus) : P (cpu.step bus).2.2 := by
  refine hkeeps.of_natural (fun bus => (((cpu.step bus).1, (cpu.step bus).2.1), (cpu.step bus).2.2))
    (fun hf bus => ?_) hp ?_
  · have hstep := hf.step cpu bus
    simp only [hstep]
  · exact List.filterMap_eq_nil_iff.mp (Recorder.writes_eq_nil h)

end Cpu

/-! ## The bus -/

/-- Two states of a bus that agree in what only a write changes: work RAM, the memories and settings
of the picture unit, and what reading the cartridge does not change. Sprite memory is not among it,
since pages are copied there. -/
structure Bus.Unwritten {C A D M : Type} (memory : C → M) (bus later : Bus C A D) : Prop where
  ram : later.ram = bus.ram
  control : later.ppu.control = bus.ppu.control
  mask : later.ppu.mask = bus.ppu.mask
  t : later.ppu.t = bus.ppu.t
  fineX : later.ppu.fineX = bus.ppu.fineX
  ciram : later.ppu.ciram = bus.ppu.ciram
  palette : later.ppu.palette = bus.ppu.palette
  cartridge : memory later.cartridge = memory bus.cartridge

namespace Bus.Unwritten

variable {C A D M : Type} {memory : C → M} {bus later last : Bus C A D}

theorem refl (memory : C → M) (bus : Bus C A D) : bus.Unwritten memory bus :=
  ⟨rfl, rfl, rfl, rfl, rfl, rfl, rfl, rfl⟩

theorem trans (h : bus.Unwritten memory later) (h' : later.Unwritten memory last) :
    bus.Unwritten memory last where
  ram := h'.ram.trans h.ram
  control := h'.control.trans h.control
  mask := h'.mask.trans h.mask
  t := h'.t.trans h.t
  fineX := h'.fineX.trans h.fineX
  ciram := h'.ciram.trans h.ciram
  palette := h'.palette.trans h.palette
  cartridge := h'.cartridge.trans h.cartridge

end Bus.Unwritten

section

variable {C A D M : Type} [Cartridge C] {memory : C → M}
  (hcpu : ∀ cartridge address, memory (Cartridge.cpuRead cartridge address).2 = memory cartridge)
  (hppu : ∀ cartridge address, memory (Cartridge.ppuRead cartridge address).2 = memory cartridge)
include hppu

theorem Ppu.readRegister_cartridge (ppu : Ppu) (cartridge : C) (address : UInt16) :
    memory (ppu.readRegister cartridge address).2.2 = memory cartridge := by
  unfold readRegister
  dsimp only
  split
  · rfl
  split
  · rfl
  split
  · unfold readData
    dsimp only
    split
    · exact (readVram_cartridge hppu ppu _ _).trans (readVram_cartridge hppu ppu _ _)
    · exact readVram_cartridge hppu ppu _ _
  · rfl

namespace Bus

variable [Apu A] [Controller D]

include hcpu in
/-- A read changes nothing of it. -/
theorem unwritten_read (bus : Bus C A D) (address : UInt16) :
    bus.Unwritten memory (bus.read address).2 := by
  have hsame := Unwritten.refl memory bus
  unfold read
  split
  · exact hsame
  split
  · have hppu := bus.ppu.readRegister_cartridge hppu bus.cartridge address
    unfold readPpu
    dsimp only
    rw [bus.ppu.readRegister_changes bus.cartridge address]
    exact { hsame with cartridge := hppu }
  split
  · unfold readIo
    split
    · exact { hsame with }
    split
    · exact { hsame with }
    split
    · exact { hsame with }
    · exact hsame
  · exact { hsame with cartridge := hcpu bus.cartridge address }

include hcpu in
/-- Neither does anything that is not an access. -/
theorem keeps_unwritten (bus : Bus C A D) :
    Keeps (fun a => a.write? = none) (bus.Unwritten memory) where
  read later address _ h := h.trans (unwritten_read hcpu hppu later address)
  write _ _ _ hwrite := nomatch hwrite
  clock _ _ h := ⟨h.ram, h.control, h.mask, h.t, h.fineX, h.ciram, h.palette, h.cartridge⟩
  takeNmi _ h := ⟨h.ram, h.control, h.mask, h.t, h.fineX, h.ciram, h.palette, h.cartridge⟩
  takeDmaRequest _ h := ⟨h.ram, h.control, h.mask, h.t, h.fineX, h.ciram, h.palette, h.cartridge⟩
  writeOam _ _ h := ⟨h.ram, h.control, h.mask, h.t, h.fineX, h.ciram, h.palette, h.cartridge⟩

end Bus

end

/-! ## The list -/

namespace Cpu

/-- Which addresses the next instruction writes, in their order. -/
structure WritesListed {C A D : Type} [Cartridge C] [Apu A] [Controller D] (cpu : Cpu T)
    (bus : Bus C A D) : Prop where
  /-- A halted processor writes nothing. -/
  jammed : cpu.jammed = true → cpu.targets bus = []
  /-- A store writes the effective address. -/
  store : cpu.jammed = false → (cpu.nextOpcode bus).operation ∈ Operation.stores →
    ∃ address crossed, (cpu.nextOperand bus).1 = .memory address crossed ∧
      cpu.targets bus = [address]
  /-- A modification writes it too; just before, it reads it once. -/
  modification : cpu.jammed = false →
    (cpu.nextOpcode bus).operation ∈ Operation.modifications →
    (cpu.nextOpcode bus).mode ≠ .accumulator →
    ∃ address crossed value, (cpu.nextOperand bus).1 = .memory address crossed ∧
      cpu.targets bus = [address] ∧
      (cpu.operated (Recorder.start bus)).accesses =
        .write address value :: .read address ::
          (cpu.nextOperand (Recorder.start bus)).2.2.accesses
  /-- If it is the accumulator that is modified, nothing is written. -/
  accumulator : cpu.jammed = false →
    (cpu.nextOpcode bus).operation ∈ Operation.modifications →
    (cpu.nextOpcode bus).mode = .accumulator → cpu.targets bus = []
  /-- A masked store writes once. -/
  maskedStore : cpu.jammed = false → (cpu.nextOpcode bus).operation ∈ Operation.maskedStores →
    ∃ address crossed written, (cpu.nextOperand bus).1 = .memory address crossed ∧
      cpu.targets bus = [Effect.maskedAddress (.memory address crossed) written]
  /-- A push writes the cell of the stack that the pointer names. -/
  push : cpu.jammed = false → (cpu.nextOpcode bus).operation ∈ Operation.pushes →
    cpu.targets bus = [0x100 ||| cpu.registers.sp.toUInt16]
  /-- A call writes this one and the one below. -/
  call : cpu.jammed = false → (cpu.nextOpcode bus).operation = .jsr →
    cpu.targets bus =
      [0x100 ||| cpu.registers.sp.toUInt16, 0x100 ||| (cpu.registers.sp - 1).toUInt16]
  /-- A break writes one more. -/
  brk : cpu.jammed = false → (cpu.nextOpcode bus).operation = .brk →
    cpu.targets bus =
      [0x100 ||| cpu.registers.sp.toUInt16, 0x100 ||| (cpu.registers.sp - 1).toUInt16,
        0x100 ||| (cpu.registers.sp - 2).toUInt16]
  /-- No other instruction writes. -/
  other : (cpu.nextOpcode bus).operation ∉ Operation.writing → cpu.targets bus = []
  /-- Without a write, everything stays that neither reads nor time change, -/
  keeps : cpu.targets bus = [] → ∀ P : Bus C A D → Prop,
    Keeps (fun a => a.write? = none) P → P bus → P (cpu.step bus).2.2
  /-- and so does what the bus remembers. -/
  unwritten : cpu.targets bus = [] → ∀ {M : Type} {memory : C → M},
    (∀ cartridge address, memory (Cartridge.cpuRead cartridge address).2 = memory cartridge) →
    (∀ cartridge address, memory (Cartridge.ppuRead cartridge address).2 = memory cartridge) →
      bus.Unwritten memory (cpu.step bus).2.2

theorem writesListed {C A D : Type} [Cartridge C] [Apu A] [Controller D] (cpu : Cpu T)
    (bus : Bus C A D) : cpu.WritesListed bus where
  jammed h := targets_of_jammed h bus
  store hrunning hop := by
    obtain ⟨address, crossed, hoperand, htargets⟩ := exists_targets hrunning hop
      (Opcode.mode_of_store _ (List.mem_append_left _ hop))
    exact ⟨address, crossed, hoperand, htargets.trans (Operation.targets_of_store hop _ _)⟩
  modification hrunning hop hmode := by
    obtain ⟨address, crossed, hoperand, htargets⟩ := exists_targets hrunning hop
      (Opcode.mode_of_modification _ hop hmode)
    obtain ⟨value, haccesses⟩ := accesses_operated hop hoperand
    obtain ⟨f, absorb, heffect⟩ := Operation.effect_of_modification hop
    rw [heffect] at htargets
    exact ⟨address, crossed, value, hoperand, htargets, haccesses⟩
  accumulator hrunning hop hmode := by
    obtain ⟨f, absorb, heffect⟩ := Operation.effect_of_modification hop
    have hoperand : (cpu.nextOperand bus).1 = .inline cpu.registers.a := by
      rw [nextOperand, hmode]
      rfl
    rw [targets_of_mem hrunning hop, heffect, hoperand]
    rfl
  maskedStore hrunning hop := by
    obtain ⟨address, crossed, hoperand, htargets⟩ := exists_targets hrunning hop
      (Opcode.mode_of_store _ (List.mem_append_right _ hop))
    obtain ⟨written, hmasked⟩ := Operation.targets_of_maskedStore hop (.memory address crossed)
      (cpu.nextOperand bus).2.1
    exact ⟨address, crossed, written, hoperand, htargets.trans hmasked⟩
  push hrunning hop := by
    rw [targets_of_mem hrunning hop,
      Operation.targets_of_push hop, sp_nextOperand, stackAddress_eq]
  call hrunning hop := by
    rw [targets_of_mem hrunning (List.mem_singleton.mpr hop), hop, ← stackAddress_eq,
      ← stackAddress_eq, ← cpu.sp_nextOperand bus]
    rfl
  brk hrunning hop := by
    have htwo : cpu.registers.sp - 2 = cpu.registers.sp - 1 - 1 := by grind
    rw [targets_of_mem hrunning (List.mem_singleton.mpr hop), hop, htwo, ← stackAddress_eq,
      ← stackAddress_eq, ← stackAddress_eq, ← cpu.sp_nextOperand bus]
    rfl
  other hop := by
    cases hjammed : cpu.jammed with
    | true => exact targets_of_jammed hjammed bus
    | false =>
      by_cases hkil : (cpu.nextOpcode bus).operation = .kil
      · exact targets_of_kil hjammed hkil
      · rw [targets_of_running hjammed hkil, Operation.targets_of_notMem hop]
  keeps h P hkeeps hp := keeps_of_targets h hkeeps hp
  unwritten h _ memory hcpu hppu :=
    keeps_of_targets h (bus.keeps_unwritten hcpu hppu) (.refl memory bus)

end Cpu

end Famicom
