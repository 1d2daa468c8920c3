import Famicom.Proofs.Bus.Cells
import Famicom.Proofs.Cpu.Arithmetic

/-!
# Combined operations

Some operations that are not documented do the work of two that are, one after the other and on the
same operand. On a memory cell they leave the same registers and the same bus. As instructions of a
program the two take longer, and they lie at other addresses; but all that a program computes with
is the same after them.

* `Operation.StandsFor`: which two operations a combination stands for.
* `Operation.run_of_standsFor`: on a memory cell it has their effect, and
  `Operation.run_alr`, `Operation.run_anc`: so it has on an immediate operand.
* `Agrees`: registers and memory are the same, but not the program counter.
* `Bus.HasCell`: a memory cell that is the same on all buses that agree.
* `Cpu.agrees_step`: an instruction leaves what its operation leaves, up to this.
* `Cpu.combinesPairs`: combinations and pairs, in work RAM, in the RAM of a board, and on immediate
  operands.
-/

namespace Famicom

open SystemBus

/-! ## Operations -/

/-- Copy the negative flag to carry. -/
def Registers.carryFromNegative (r : Registers) : Registers := { r with p.carry := r.p.negative }

/-- A combination stands for two operations: it does what they do one after the other. -/
inductive Operation.StandsFor : Operation → Operation → Operation → Prop where
  | slo : StandsFor slo asl ora
  | rla : StandsFor rla rol and
  | sre : StandsFor sre lsr eor
  | rra : StandsFor rra ror adc
  | dcp : StandsFor dcp dec cmp
  | isc : StandsFor isc inc sbc
  | lax : StandsFor lax lda ldx

section

variable {B : Type} [SystemBus B] {bus : B} {address : UInt16}

/-- To absorb what has been written is to load it afterwards. -/
theorem Effect.run_modify_absorbing (hcell : IsCell bus address) (r : Registers)
    (f : UInt8 → Status → UInt8 × Status) (absorb : Registers → UInt8 → Registers)
    (crossed crossed₁ crossed₂ : Bool) :
    (modify f absorb).run (.memory address crossed) r bus =
      (load absorb).run (.memory address crossed₂)
        ((modify f ignore).run (.memory address crossed₁) r bus).1
        ((modify f ignore).run (.memory address crossed₁) r bus).2 := by
  have hwritten := hcell.write (f (read bus address).1 r.p).1
  simp only [run, Operand.address, Operand.load, ignore, hcell.read, hwritten]

namespace Operation

variable {operation first second : Operation}

/-- On a memory cell, a combination has the effect of the two operations. -/
theorem run_of_standsFor (h : StandsFor operation first second) (hcell : IsCell bus address)
    (r : Registers) (crossed crossed₁ crossed₂ : Bool) :
    operation.effect.run (.memory address crossed) r bus =
      second.effect.run (.memory address crossed₂)
        (first.effect.run (.memory address crossed₁) r bus).1
        (first.effect.run (.memory address crossed₁) r bus).2 := by
  cases h with
  | lax => simp only [effect, Effect.run, Operand.load, hcell.read]; rfl
  | _ => exact Effect.run_modify_absorbing hcell r _ _ crossed crossed₁ crossed₂

/-- The shift is that of the accumulator. -/
theorem run_alr (m : UInt8) (r : Registers) (bus : B) :
    alr.effect.run (.inline m) r bus =
      lsr.effect.run (.inline (and.effect.run (.inline m) r bus).1.a)
        (and.effect.run (.inline m) r bus).1 (and.effect.run (.inline m) r bus).2 := by
  have hcomm : m &&& r.a = r.a &&& m := UInt8.and_comm m r.a
  simp only [effect, Effect.run, Operand.load, hcomm]
  rfl

theorem run_anc (m : UInt8) (r : Registers) (bus : B) :
    anc.effect.run (.inline m) r bus =
      ((and.effect.run (.inline m) r bus).1.carryFromNegative,
        (and.effect.run (.inline m) r bus).2) := rfl

end Operation

end

/-! ## Agreement -/

section

variable {T C A D M : Type} {memory : C → M}

theorem Bus.Unwritten.symm {bus later : Bus C A D} (h : bus.Unwritten memory later) :
    later.Unwritten memory bus :=
  ⟨h.ram.symm, h.control.symm, h.mask.symm, h.t.symm, h.fineX.symm, h.ciram.symm, h.palette.symm,
    h.cartridge.symm⟩

/-- Registers and memory are the same, but for the program counter; memory is what only a write
changes, whatever time has passed. -/
structure Agrees (memory : C → M) (x y : Registers × Bus C A D) : Prop where
  registers : y.1 = { x.1 with pc := y.1.pc }
  bus : x.2.Unwritten memory y.2

namespace Agrees

variable {x y z : Registers × Bus C A D}

theorem refl (memory : C → M) (x : Registers × Bus C A D) : Agrees memory x x :=
  ⟨rfl, .refl memory x.2⟩

theorem of_registers (h : y.1 = x.1) (hbus : x.2.Unwritten memory y.2) : Agrees memory x y where
  registers := by
    rw [h]
  bus := hbus

theorem symm (h : Agrees memory x y) : Agrees memory y x where
  registers := by
    rw [h.registers]
  bus := h.bus.symm

theorem trans (h : Agrees memory x y) (h' : Agrees memory y z) : Agrees memory x z where
  registers := by
    rw [h'.registers, h.registers]
  bus := h.bus.trans h'.bus

end Agrees

/-- The functions inside an effect that loads or modifies do not read the program counter. -/
def Effect.Relocatable : Effect → Prop
  | load f => ∀ r pc v, f { r with pc } v = { f r v with pc }
  | modify _ absorb => ∀ r pc v, absorb { r with pc } v = { absorb r v with pc }
  | _ => False

theorem Effect.Relocatable.ne_kil {operation : Operation} (h : operation.effect.Relocatable) :
    operation ≠ .kil := by
  rintro rfl
  exact h.elim

namespace Operation.StandsFor

variable {operation first second : Operation}

/-- None of the operations reads the program counter. -/
theorem relocatable (h : StandsFor operation first second) :
    operation.effect.Relocatable ∧ first.effect.Relocatable ∧ second.effect.Relocatable := by
  cases h <;> exact ⟨fun _ _ _ => rfl, fun _ _ _ => rfl, fun _ _ _ => rfl⟩

end Operation.StandsFor

variable [Cartridge C] [Apu A] [Controller D]

/-- At an address lies a memory cell, the same on all buses that agree. -/
structure Bus.HasCell (A D : Type) [Apu A] [Controller D] (memory : C → M) (address : UInt16) :
    Prop where
  isCell : ∀ bus : Bus C A D, IsCell bus address
  read : ∀ {bus later : Bus C A D}, bus.Unwritten memory later →
    (SystemBus.read later address).1 = (SystemBus.read bus address).1
  write : ∀ {bus later : Bus C A D}, bus.Unwritten memory later → ∀ value,
    (SystemBus.write bus address value).Unwritten memory (SystemBus.write later address value)

namespace Bus

theorem hasCell_ram (memory : C → M) {address : UInt16} (h : address < 0x2000) :
    HasCell A D memory address where
  isCell bus := bus.isCell_ram h
  read {bus later} hsame := by
    rw [bus.read_ram h, later.read_ram h, hsame.ram]
  write {bus later} hsame value := by
    rw [bus.write_ram h, later.write_ram h]
    exact { hsame with ram := congrArg (Memory.store · address.toNat value) hsame.ram }

theorem hasCell_programRam {address : UInt16} (hlow : 0x6000 ≤ address) (hhigh : address < 0x8000) :
    HasCell A D (id : Nrom → Nrom) address where
  isCell bus := bus.isCell_programRam hlow hhigh
  read {bus later} hsame := by
    have hboard : later.cartridge = bus.cartridge := hsame.cartridge
    rw [bus.read_programRam hlow hhigh, later.read_programRam hlow hhigh, hboard]
  write {bus later} hsame value := by
    have hboard : later.cartridge = bus.cartridge := hsame.cartridge
    rw [bus.write_programRam hlow hhigh, later.write_programRam hlow hhigh, hboard]
    exact { hsame with cartridge := rfl }

end Bus

namespace Agrees

variable {x y : Registers × Bus C A D} {effect : Effect}

/-- Where a memory cell lies, an effect on it keeps agreement. -/
theorem run_memory (h : Agrees memory x y) (heffect : effect.Relocatable) {address : UInt16}
    (hcell : Bus.HasCell A D memory address) (crossed crossed' : Bool) :
    Agrees memory (effect.run (.memory address crossed) x.1 x.2)
      (effect.run (.memory address crossed') y.1 y.2) := by
  obtain ⟨r, bus⟩ := x
  obtain ⟨r', bus'⟩ := y
  obtain ⟨hregisters, hbus⟩ := h
  obtain ⟨pc, rfl⟩ : ∃ pc, r' = { r with pc } := ⟨_, hregisters⟩
  have hbyte := hcell.read hbus
  have hread := (hcell.isCell bus).read
  have hread' := (hcell.isCell bus').read
  cases effect with
  | load f =>
    have hf := heffect r pc
    simp only [Effect.run, Operand.load, hread, hread', hbyte, hf]
    exact ⟨rfl, hbus⟩
  | modify f absorb =>
    have habsorb (p : Status) := heffect { r with p } pc
    dsimp only at habsorb
    simp only [Effect.run, Operand.address, hread, hread', hbyte, habsorb]
    exact ⟨rfl, hcell.write hbus _⟩
  | _ => exact heffect.elim

/-- So does an effect on a value that is in the processor already. -/
theorem run_inline (h : Agrees memory x y) (heffect : effect.Relocatable) (value : UInt8) :
    Agrees memory (effect.run (.inline value) x.1 x.2) (effect.run (.inline value) y.1 y.2) := by
  obtain ⟨r, bus⟩ := x
  obtain ⟨r', bus'⟩ := y
  obtain ⟨hregisters, hbus⟩ := h
  obtain ⟨pc, rfl⟩ : ∃ pc, r' = { r with pc } := ⟨_, hregisters⟩
  cases effect with
  | load f =>
    have hf := heffect r pc
    simp only [Effect.run, Operand.load, hf]
    exact ⟨rfl, hbus⟩
  | modify f absorb =>
    have habsorb (a : UInt8) (p : Status) := heffect { r with a, p } pc
    dsimp only at habsorb
    simp only [Effect.run, habsorb]
    exact ⟨rfl, hbus⟩
  | _ => exact heffect.elim

end Agrees

/-! ## Instructions -/

namespace Cpu

section

variable {B : Type} [SystemBus B]

/-- The next instruction performs an operation on an operand. -/
def PerformsOn (cpu : Cpu T) (bus : B) (operation : Operation) (operand : Operand) : Prop :=
  cpu.Performs bus operation ∧ (cpu.nextOperand bus).1 = operand

/-- The registers and the bus after the next instruction. -/
def leaves (cpu : Cpu T) (bus : B) : Registers × B :=
  ((cpu.step bus).2.1.registers, (cpu.step bus).2.2)

/-- The registers and the bus after the next two instructions. -/
def leavesAfterTwo (cpu : Cpu T) (bus : B) : Registers × B :=
  (cpu.step bus).2.1.leaves (cpu.step bus).2.2

end

section

variable (hcpu : ∀ cartridge address,
    memory (Cartridge.cpuRead cartridge address).2 = memory cartridge)
  (hppu : ∀ cartridge address, memory (Cartridge.ppuRead cartridge address).2 = memory cartridge)
include hcpu hppu

/-- An instruction leaves what its operation leaves, where that keeps agreement. -/
theorem agrees_step {cpu : Cpu T} {bus : Bus C A D} {operation : Operation} {operand : Operand}
    (h : cpu.PerformsOn bus operation operand) (hrelocatable : operation.effect.Relocatable)
    (hrun : ∀ x y : Registers × Bus C A D, Agrees memory x y →
      Agrees memory (operation.effect.run operand x.1 x.2) (operation.effect.run operand y.1 y.2))
    {x : Registers × Bus C A D} (hx : Agrees memory x (cpu.registers, bus)) :
    Agrees memory (operation.effect.run operand x.1 x.2) (cpu.leaves bus) := by
  obtain ⟨⟨hrunning, rfl⟩, rfl⟩ := h
  have hresolved : Agrees memory (cpu.registers, bus)
      (cpu.behind bus, (cpu.nextOperand bus).2.2) :=
    ⟨rfl, bus.unwritten_nextOperand hcpu hppu cpu⟩
  have hbus : ((cpu.nextOpcode bus).operation.effect.run (cpu.nextOperand bus).1 (cpu.behind bus)
      (cpu.nextOperand bus).2.2).2.Unwritten memory (cpu.leaves bus).2 := by
    have hperformed := Bus.unwritten_perform hcpu hppu (cpu.nextOperand bus).2.2
      { cpu with registers := (cpu.nextOperand bus).2.1 } (cpu.nextOpcode bus)
      (cpu.nextOperand bus).1
    rw [← step_of_running hrunning hrelocatable.ne_kil] at hperformed
    rwa [← registers_nextOperand]
  exact (hrun _ _ (hx.trans hresolved)).trans
    (.of_registers (registers_step ⟨hrunning, rfl⟩ hrelocatable.ne_kil) hbus)

theorem agrees_memory {cpu : Cpu T} {bus : Bus C A D} {operation : Operation} {address : UInt16}
    {crossed : Bool} (h : cpu.PerformsOn bus operation (.memory address crossed))
    (hrelocatable : operation.effect.Relocatable) (hcell : Bus.HasCell A D memory address)
    {x : Registers × Bus C A D} (hx : Agrees memory x (cpu.registers, bus)) :
    Agrees memory (operation.effect.run (.memory address crossed) x.1 x.2) (cpu.leaves bus) :=
  agrees_step hcpu hppu h hrelocatable
    (fun _ _ h => h.run_memory hrelocatable hcell crossed crossed) hx

theorem agrees_inline {cpu : Cpu T} {bus : Bus C A D} {operation : Operation} {m : UInt8}
    (h : cpu.PerformsOn bus operation (.inline m)) (hrelocatable : operation.effect.Relocatable)
    {x : Registers × Bus C A D} (hx : Agrees memory x (cpu.registers, bus)) :
    Agrees memory (operation.effect.run (.inline m) x.1 x.2) (cpu.leaves bus) :=
  agrees_step hcpu hppu h hrelocatable (fun _ _ h => h.run_inline hrelocatable m) hx

/-- Two instructions leave what a combination of their operations leaves. -/
theorem agrees_standsFor {operation first second : Operation}
    (h : Operation.StandsFor operation first second) {address : UInt16}
    (hcell : Bus.HasCell A D memory address) {cpu other : Cpu T} {bus bus' : Bus C A D}
    {crossed crossed₁ crossed₂ : Bool}
    (hone : cpu.PerformsOn bus operation (.memory address crossed))
    (hfirst : other.PerformsOn bus' first (.memory address crossed₁))
    (hsecond : (other.step bus').2.1.PerformsOn (other.step bus').2.2 second
      (.memory address crossed₂))
    (hagree : Agrees memory (cpu.registers, bus) (other.registers, bus')) :
    Agrees memory (cpu.leaves bus) (other.leavesAfterTwo bus') := by
  obtain ⟨hrelocatable, hrelocatable₁, hrelocatable₂⟩ := h.relocatable
  have hcombined := agrees_memory hcpu hppu hone hrelocatable hcell (.refl memory _)
  have hhalf := agrees_memory hcpu hppu hfirst hrelocatable₁ hcell hagree
  have hpair := agrees_memory hcpu hppu hsecond hrelocatable₂ hcell hhalf
  rw [Operation.run_of_standsFor h (hcell.isCell bus) _ crossed crossed₁ crossed₂] at hcombined
  exact hcombined.symm.trans hpair

/-- Two instructions leave what a conjunction with a shift leaves. -/
theorem agrees_alr {m : UInt8} {cpu other : Cpu T} {bus bus' : Bus C A D}
    (hone : cpu.PerformsOn bus .alr (.inline m)) (hand : other.PerformsOn bus' .and (.inline m))
    (hshift : (other.step bus').2.1.PerformsOn (other.step bus').2.2 .lsr
      (.inline (other.step bus').2.1.registers.a))
    (hagree : Agrees memory (cpu.registers, bus) (other.registers, bus')) :
    Agrees memory (cpu.leaves bus) (other.leavesAfterTwo bus') := by
  have hcombined := agrees_inline hcpu hppu hone (fun _ _ _ => rfl) (.refl memory _)
  have hhalf := agrees_inline hcpu hppu hand (fun _ _ _ => rfl) hagree
  have hpair := agrees_inline hcpu hppu hshift (fun _ _ _ => rfl) hhalf
  have ha : (other.leaves bus').1.a =
      (Operation.and.effect.run (.inline m) cpu.registers bus).1.a := by
    rw [hhalf.registers]
  rw [show (other.step bus').2.1.registers.a = _ from ha] at hpair
  rw [Operation.run_alr] at hcombined
  exact hcombined.symm.trans hpair

/-- An instruction and a copy of a flag leave what a conjunction with this copy leaves. -/
theorem agrees_anc {m : UInt8} {cpu other : Cpu T} {bus bus' : Bus C A D}
    (hone : cpu.PerformsOn bus .anc (.inline m)) (hand : other.PerformsOn bus' .and (.inline m))
    (hagree : Agrees memory (cpu.registers, bus) (other.registers, bus')) :
    Agrees memory (cpu.leaves bus)
      ((other.leaves bus').1.carryFromNegative, (other.leaves bus').2) := by
  have hcombined := agrees_inline hcpu hppu hone (fun _ _ _ => rfl) (.refl memory _)
  have hhalf := agrees_inline hcpu hppu hand (fun _ _ _ => rfl) hagree
  rw [Operation.run_anc] at hcombined
  refine hcombined.symm.trans ⟨?_, hhalf.bus⟩
  rw [hhalf.registers]
  rfl

end

/-! ## Combinations and pairs -/

/-- At an address, combinations do what the pairs do that they stand for. -/
structure CombinesAt (T A D : Type) [Apu A] [Controller D] (memory : C → M) (address : UInt16) :
    Prop where
  /-- The operation leaves the same registers and the same bus. -/
  operation : ∀ {operation first second}, Operation.StandsFor operation first second →
    ∀ (r : Registers) (bus : Bus C A D) (crossed crossed₁ crossed₂ : Bool),
      operation.effect.run (.memory address crossed) r bus =
        second.effect.run (.memory address crossed₂)
          (first.effect.run (.memory address crossed₁) r bus).1
          (first.effect.run (.memory address crossed₁) r bus).2
  /-- The instruction leaves what two leave, on processors and buses that agree before. -/
  instruction : ∀ {operation first second}, Operation.StandsFor operation first second →
    ∀ {cpu other : Cpu T} {bus bus' : Bus C A D} {crossed crossed₁ crossed₂ : Bool},
      cpu.PerformsOn bus operation (.memory address crossed) →
      other.PerformsOn bus' first (.memory address crossed₁) →
      (other.step bus').2.1.PerformsOn (other.step bus').2.2 second (.memory address crossed₂) →
      Agrees memory (cpu.registers, bus) (other.registers, bus') →
      Agrees memory (cpu.leaves bus) (other.leavesAfterTwo bus')

/-- So do the two combinations with an immediate operand. -/
structure CombinesImmediate (T A D : Type) [Apu A] [Controller D] (memory : C → M) : Prop where
  alr : ∀ (m : UInt8) (r : Registers) (bus : Bus C A D),
    Operation.alr.effect.run (.inline m) r bus =
      Operation.lsr.effect.run (.inline (Operation.and.effect.run (.inline m) r bus).1.a)
        (Operation.and.effect.run (.inline m) r bus).1
        (Operation.and.effect.run (.inline m) r bus).2
  anc : ∀ (m : UInt8) (r : Registers) (bus : Bus C A D),
    Operation.anc.effect.run (.inline m) r bus =
      ((Operation.and.effect.run (.inline m) r bus).1.carryFromNegative,
        (Operation.and.effect.run (.inline m) r bus).2)
  alrInstruction : ∀ {m : UInt8} {cpu other : Cpu T} {bus bus' : Bus C A D},
    cpu.PerformsOn bus .alr (.inline m) → other.PerformsOn bus' .and (.inline m) →
    (other.step bus').2.1.PerformsOn (other.step bus').2.2 .lsr
      (.inline (other.step bus').2.1.registers.a) →
    Agrees memory (cpu.registers, bus) (other.registers, bus') →
    Agrees memory (cpu.leaves bus) (other.leavesAfterTwo bus')
  ancInstruction : ∀ {m : UInt8} {cpu other : Cpu T} {bus bus' : Bus C A D},
    cpu.PerformsOn bus .anc (.inline m) → other.PerformsOn bus' .and (.inline m) →
    Agrees memory (cpu.registers, bus) (other.registers, bus') →
    Agrees memory (cpu.leaves bus)
      ((other.leaves bus').1.carryFromNegative, (other.leaves bus').2)

end Cpu

end

namespace Cpu

/-- Where combinations do what the pairs do; `memory` is what reading a cartridge does not
change. -/
structure CombinesPairs (T A D : Type) [Apu A] [Controller D] : Prop where
  /-- In work RAM, wherever it is repeated. -/
  ram : ∀ {C M : Type} [Cartridge C] (memory : C → M),
    (∀ cartridge address, memory (Cartridge.cpuRead cartridge address).2 = memory cartridge) →
    (∀ cartridge address, memory (Cartridge.ppuRead cartridge address).2 = memory cartridge) →
    ∀ address < 0x2000, CombinesAt T A D memory address
  /-- In the RAM of a board without bank switching. -/
  programRam : ∀ address : UInt16, 0x6000 ≤ address → address < 0x8000 →
    CombinesAt T A D (id : Nrom → Nrom) address
  immediate : ∀ {C M : Type} [Cartridge C] (memory : C → M),
    (∀ cartridge address, memory (Cartridge.cpuRead cartridge address).2 = memory cartridge) →
    (∀ cartridge address, memory (Cartridge.ppuRead cartridge address).2 = memory cartridge) →
    CombinesImmediate T A D memory

/-- A combination is the pair that it stands for. -/
theorem combinesPairs (T A D : Type) [Apu A] [Controller D] : CombinesPairs T A D where
  ram memory hcpu hppu _ h :=
    { operation := fun hpair r bus =>
        Operation.run_of_standsFor hpair (bus.isCell_ram h) r
      instruction := fun hpair =>
        agrees_standsFor hcpu hppu hpair (Bus.hasCell_ram memory h) }
  programRam _ hlow hhigh :=
    { operation := fun hpair r bus =>
        Operation.run_of_standsFor hpair (bus.isCell_programRam hlow hhigh) r
      instruction := fun hpair =>
        agrees_standsFor (fun _ _ => rfl) (fun _ _ => rfl) hpair
          (Bus.hasCell_programRam hlow hhigh) }
  immediate _ hcpu hppu :=
    { alr := Operation.run_alr
      anc := Operation.run_anc
      alrInstruction := agrees_alr hcpu hppu
      ancInstruction := agrees_anc hcpu hppu }

end Cpu

end Famicom
