import Famicom.Bus
import Famicom.Proofs.Cpu.BusMap
import Famicom.Proofs.Cpu.Passive

/-!
# What the sound unit is told

The sound unit runs on the processor's clock and learns the time from the cycles that it is told to
advance by. A meter in front of the unit adds them up. Neither the unit nor the processor notices
it, and over an instruction it moves by the count that the instruction returns.

* `Metered`: a sound unit behind a meter.
* `Bus.busMap_unmetered`: a console with a meter runs like one without.
* `Clocked.step`: over an instruction, the clock advances by the count that it returns.
-/

namespace Famicom

open SystemBus

/-! ## The meter -/

/-- A sound unit, and the cycles that it has been told to advance by. -/
structure Metered (A : Type) where
  unit : A
  total : Nat

instance {A : Type} [Apu A] : Apu (Metered A) where
  clock meter cycles := ⟨Apu.clock meter.unit cycles, meter.total + cycles⟩
  readRegister meter address :=
    ((Apu.readRegister meter.unit address).1,
      { meter with unit := (Apu.readRegister meter.unit address).2 })
  writeRegister meter address value :=
    { meter with unit := Apu.writeRegister meter.unit address value }
  irqPending meter := Apu.irqPending meter.unit

namespace Bus

variable {C A D : Type}

/-- Put a meter in front of the sound unit. -/
def metered (bus : Bus C A D) : Bus C (Metered A) D := { bus with apu := ⟨bus.apu, 0⟩ }

/-- Take the meter away. -/
def unmetered (bus : Bus C (Metered A) D) : Bus C A D := { bus with apu := bus.apu.unit }

variable [Cartridge C] [Apu A] [Controller D]

theorem read_metered (bus : Bus C (Metered A) D) (address : UInt16) :
    bus.unmetered.read address = ((bus.read address).1, (bus.read address).2.unmetered) ∧
      (bus.read address).2.apu.total = bus.apu.total := by
  unfold read readIo
  split
  · exact ⟨rfl, rfl⟩
  split
  · exact ⟨rfl, rfl⟩
  split
  · split
    · exact ⟨rfl, rfl⟩
    split
    · exact ⟨rfl, rfl⟩
    split <;> exact ⟨rfl, rfl⟩
  · exact ⟨rfl, rfl⟩

theorem write_metered (bus : Bus C (Metered A) D) (address : UInt16) (value : UInt8) :
    bus.unmetered.write address value = (bus.write address value).unmetered ∧
      (bus.write address value).apu.total = bus.apu.total := by
  unfold write writeIo
  split
  · exact ⟨rfl, rfl⟩
  split
  · exact ⟨rfl, rfl⟩
  split
  · split
    · exact ⟨rfl, rfl⟩
    split
    · exact ⟨rfl, rfl⟩
    split <;> exact ⟨rfl, rfl⟩
  · exact ⟨rfl, rfl⟩

/-- The processor does not notice the meter. -/
theorem busMap_unmetered : BusMap (unmetered : Bus C (Metered A) D → Bus C A D) where
  read bus address := (bus.read_metered address).1
  write bus address value := (bus.write_metered address value).1
  clock _ _ := rfl
  takeNmi _ := rfl
  irqLine _ := rfl
  takeDmaRequest _ := rfl
  writeOam _ _ := rfl

end Bus

/-! ## The processor's clock -/

section

variable {T B : Type} [SystemBus B] {clocked : B → Nat} {bus : B}

/-- A counter on a bus that counts the cycles that pass, and nothing else. -/
structure Clocked (clocked : B → Nat) : Prop where
  read : ∀ bus address, clocked (read bus address).2 = clocked bus
  write : ∀ bus address value, clocked (write bus address value) = clocked bus
  clock : ∀ bus cycles, clocked (clock bus cycles) = clocked bus + cycles
  takeDmaRequest : ∀ bus, clocked (takeDmaRequest bus).2 = clocked bus
  writeOam : ∀ bus value, clocked (writeOam bus value) = clocked bus

namespace Clocked

/-- Whatever takes no time leaves the counter alone. -/
theorem inert (h : Clocked clocked) (n : Nat) : Inert fun bus : B => clocked bus = n where
  read _ _ hbus := (h.read _ _).trans hbus
  stack _ _ _ hbus := (h.write _ _ _).trans hbus
  takeDmaRequest _ hbus := (h.takeDmaRequest _).trans hbus
  writeOam _ _ hbus := (h.writeOam _ _).trans hbus

theorem run (h : Clocked clocked) (effect : Effect) (operand : Operand) (r : Registers) (bus : B) :
    clocked (effect.run operand r bus).2 = clocked bus :=
  (h.inert _).run (h.inert _) (fun _ => id) (fun _ _ _ hbus => (h.write _ _ _).trans hbus) rfl
    effect operand r

theorem jam (h : Clocked clocked) (cpu : Cpu T) (bus : B) :
    clocked (cpu.jam bus).2.2 = clocked bus + (cpu.jam bus).1 := by
  unfold Cpu.jam
  split
  · have hread := (h.inert (clocked bus)).readWord rfl Interrupt.resetVector
    exact (h.clock _ _).trans (congrArg (· + Interrupt.cycles) hread)
  · exact h.clock _ _

theorem serveTransfer (h : Clocked clocked) (cpu : Cpu T) (bus : B) :
    clocked (cpu.serveTransfer bus).2.2 = clocked bus + (cpu.serveTransfer bus).1 := by
  have htaken := h.takeDmaRequest bus
  unfold Cpu.serveTransfer
  dsimp only
  split
  · exact htaken
  · have hmoved := (h.inert (clocked bus)).transferPage htaken
    exact (h.clock _ _).trans (congrArg (· + _) (hmoved _))

theorem perform (h : Clocked clocked) (cpu : Cpu T) (bus : B) (opcode : Opcode)
    (operand : Operand) :
    clocked (cpu.perform bus opcode operand).2.2 =
      clocked bus + (cpu.perform bus opcode operand).1 := by
  have hrun := h.run opcode.operation.effect operand cpu.registers bus
  unfold Cpu.perform Cpu.elapse
  dsimp only
  rw [h.serveTransfer, h.clock, hrun, Nat.add_assoc]

/-- Over an instruction, the counter moves by the count that the instruction returns. -/
theorem step (h : Clocked clocked) (cpu : Cpu T) (bus : B) :
    clocked (cpu.step bus).2.2 = clocked bus + (cpu.step bus).1 := by
  have hkept := h.inert (clocked bus)
  unfold Cpu.step
  split
  · exact h.clock _ _
  have hresolved := hkept.resolve (hkept.fetchByte rfl cpu.registers)
    (Opcode.ofByte (cpu.registers.fetchByte bus).1).mode (cpu.registers.fetchByte bus).2.1
  dsimp only
  split
  · rw [h.jam, hresolved]
  · rw [h.perform, hresolved]

end Clocked

end

namespace Bus

variable {C A D : Type} [Cartridge C] [Apu A] [Controller D]

/-- The sound unit is told of the time that passes, and of nothing else. -/
theorem clocked_total : Clocked fun bus : Bus C (Metered A) D => bus.apu.total where
  read bus address := (bus.read_metered address).2
  write bus address value := (bus.write_metered address value).2
  clock _ _ := rfl
  takeDmaRequest _ := rfl
  writeOam _ _ := rfl

end Bus

end Famicom
