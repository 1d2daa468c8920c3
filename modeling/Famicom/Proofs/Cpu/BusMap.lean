import Famicom.Cpu.Run

/-!
# The processor over two buses

The processor reaches its bus only through the operations of `SystemBus`, so a map between buses
that commutes with those commutes with everything that the processor does.

* `BusMap f`: the operations commute with `f`.
* `BusMap.step`, `BusMap.nmi`, `BusMap.runTo`: so do instructions, interrupts and runs.
* `SystemBus.Keeps.runTo`: a property that every operation keeps is kept by a run.
-/

namespace Famicom

open SystemBus

variable {B B' : Type} [SystemBus B] [SystemBus B'] {f : B → B'}

/-- A map between buses that the processor cannot notice. -/
structure BusMap (f : B → B') : Prop where
  read : ∀ bus address, read (f bus) address = ((read bus address).1, f (read bus address).2)
  write : ∀ bus address value, write (f bus) address value = f (write bus address value)
  clock : ∀ bus cycles, clock (f bus) cycles = f (clock bus cycles)
  takeNmi : ∀ bus, takeNmi (f bus) = ((takeNmi bus).1, f (takeNmi bus).2)
  irqLine : ∀ bus, irqLine (f bus) = irqLine bus
  takeDmaRequest : ∀ bus,
    takeDmaRequest (f bus) = ((takeDmaRequest bus).1, f (takeDmaRequest bus).2)
  writeOam : ∀ bus value, writeOam (f bus) value = f (writeOam bus value)

namespace BusMap

/-! ## Words, pages and the stack -/

theorem readWord (h : BusMap f) (bus : B) (address : UInt16) :
    SystemBus.readWord (f bus) address =
      ((SystemBus.readWord bus address).1, f (SystemBus.readWord bus address).2) := by
  simp only [SystemBus.readWord, h.read]

theorem transferByte (h : BusMap f) (page : UInt8) (bus : B) (offset : UInt8) :
    SystemBus.transferByte page (f bus) offset = f (SystemBus.transferByte page bus offset) := by
  simp only [SystemBus.transferByte, h.read, h.writeOam]

theorem transferPage (h : BusMap f) (bus : B) (page : UInt8) :
    SystemBus.transferPage (f bus) page = f (SystemBus.transferPage bus page) := by
  unfold SystemBus.transferPage
  rw [Fin.foldl_eq_finRange_foldl, Fin.foldl_eq_finRange_foldl]
  generalize List.finRange 256 = offsets
  induction offsets generalizing bus with
  | nil => rfl
  | cons offset rest ih => simp only [List.foldl_cons, h.transferByte, ih]

theorem push (h : BusMap f) (r : Registers) (bus : B) (value : UInt8) :
    r.push (f bus) value = ((r.push bus value).1, f (r.push bus value).2) := by
  simp only [Registers.push, h.write]

theorem pull (h : BusMap f) (r : Registers) (bus : B) :
    r.pull (f bus) = ((r.pull bus).1, (r.pull bus).2.1, f (r.pull bus).2.2) := by
  simp only [Registers.pull, h.read]

theorem pushWord (h : BusMap f) (r : Registers) (bus : B) (value : UInt16) :
    r.pushWord (f bus) value = ((r.pushWord bus value).1, f (r.pushWord bus value).2) := by
  simp only [Registers.pushWord, h.push]

theorem pullWord (h : BusMap f) (r : Registers) (bus : B) :
    r.pullWord (f bus) = ((r.pullWord bus).1, (r.pullWord bus).2.1, f (r.pullWord bus).2.2) := by
  simp only [Registers.pullWord, h.pull]

theorem interrupt (h : BusMap f) (r : Registers) (bus : B) (vector : UInt16) (software : Bool) :
    r.interrupt (f bus) vector software =
      ((r.interrupt bus vector software).1, f (r.interrupt bus vector software).2) := by
  simp only [Registers.interrupt, h.pushWord, h.push, h.readWord]

theorem reset (h : BusMap f) (r : Registers) (bus : B) :
    r.reset (f bus) = ((r.reset bus).1, f (r.reset bus).2) := by
  simp only [Registers.reset, h.readWord]

/-! ## Operands and effects -/

theorem fetchByte (h : BusMap f) (r : Registers) (bus : B) :
    r.fetchByte (f bus) =
      ((r.fetchByte bus).1, (r.fetchByte bus).2.1, f (r.fetchByte bus).2.2) := by
  simp only [Registers.fetchByte, h.read]

theorem fetchWord (h : BusMap f) (r : Registers) (bus : B) :
    r.fetchWord (f bus) =
      ((r.fetchWord bus).1, (r.fetchWord bus).2.1, f (r.fetchWord bus).2.2) := by
  simp only [Registers.fetchWord, h.fetchByte]

theorem readPointer (h : BusMap f) (bus : B) (low : UInt16) :
    Famicom.readPointer (f bus) low =
      ((Famicom.readPointer bus low).1, f (Famicom.readPointer bus low).2) := by
  simp only [Famicom.readPointer, h.read]

theorem resolve (h : BusMap f) (mode : AddressingMode) (r : Registers) (bus : B) :
    mode.resolve r (f bus) =
      ((mode.resolve r bus).1, (mode.resolve r bus).2.1, f (mode.resolve r bus).2.2) := by
  cases mode <;> simp only [AddressingMode.resolve, h.fetchByte, h.fetchWord, h.readPointer]

theorem load (h : BusMap f) (operand : Operand) (bus : B) :
    operand.load (f bus) = ((operand.load bus).1, f (operand.load bus).2) := by
  cases operand <;> simp only [Operand.load, h.read]

theorem run (h : BusMap f) (effect : Effect) (operand : Operand) (r : Registers) (bus : B) :
    effect.run operand r (f bus) =
      ((effect.run operand r bus).1, f (effect.run operand r bus).2) := by
  cases effect with
  | modify g absorb => cases operand <;> simp only [Effect.run, h.read, h.write]
  | _ =>
    simp only [Effect.run, h.load, h.write, h.push, h.pull, h.pushWord, h.pullWord, h.interrupt]

/-! ## Instructions and interrupts -/

variable {T : Type}

theorem elapse (h : BusMap f) (cpu : Cpu T) (bus : B) (cycles : Nat) :
    cpu.elapse (f bus) cycles = ((cpu.elapse bus cycles).1, f (cpu.elapse bus cycles).2) := by
  simp only [Cpu.elapse, h.clock]

theorem nmi (h : BusMap f) (cpu : Cpu T) (bus : B) :
    cpu.nmi (f bus) = ((cpu.nmi bus).1, f (cpu.nmi bus).2) := by
  simp only [Cpu.nmi, Cpu.runSequence, h.interrupt, h.elapse]

theorem irq (h : BusMap f) (cpu : Cpu T) (bus : B) :
    cpu.irq (f bus) = ((cpu.irq bus).1, f (cpu.irq bus).2) := by
  unfold Cpu.irq
  split
  · rfl
  · simp only [Cpu.runSequence, h.interrupt, h.elapse]

theorem restart (h : BusMap f) (cpu : Cpu T) (bus : B) :
    cpu.restart (f bus) = ((cpu.restart bus).1, f (cpu.restart bus).2) := by
  simp only [Cpu.restart, Cpu.runSequence, h.reset, h.elapse]

theorem poll (h : BusMap f) (cpu : Cpu T) (bus : B) :
    cpu.poll (f bus) = ((cpu.poll bus).1, f (cpu.poll bus).2) := by
  unfold Cpu.poll Cpu.pollInterrupts
  split
  · rfl
  · simp only [h.takeNmi, h.irqLine]
    split
    · rw [h.nmi]
    · split
      · rw [h.irq]
      · rfl

theorem spend (h : BusMap f) (cpu : Cpu T) (bus : B) (cycles : Nat) :
    cpu.spend (f bus) cycles =
      ((cpu.spend bus cycles).1, (cpu.spend bus cycles).2.1, f (cpu.spend bus cycles).2.2) := by
  simp only [Cpu.spend, h.elapse]

theorem jam (h : BusMap f) (cpu : Cpu T) (bus : B) :
    cpu.jam (f bus) = ((cpu.jam bus).1, (cpu.jam bus).2.1, f (cpu.jam bus).2.2) := by
  unfold Cpu.jam
  split
  · simp only [h.restart]
  · simp only [h.spend]

theorem serveTransfer (h : BusMap f) (cpu : Cpu T) (bus : B) :
    cpu.serveTransfer (f bus) =
      ((cpu.serveTransfer bus).1, (cpu.serveTransfer bus).2.1,
        f (cpu.serveTransfer bus).2.2) := by
  simp only [Cpu.serveTransfer, h.takeDmaRequest]
  split
  · rfl
  · simp only [h.transferPage, h.spend]

theorem perform (h : BusMap f) (cpu : Cpu T) (bus : B) (opcode : Opcode) (operand : Operand) :
    cpu.perform (f bus) opcode operand =
      ((cpu.perform bus opcode operand).1, (cpu.perform bus opcode operand).2.1,
        f (cpu.perform bus opcode operand).2.2) := by
  simp only [Cpu.perform, h.run, h.elapse, h.serveTransfer]

/-- An instruction. -/
theorem step (h : BusMap f) (cpu : Cpu T) (bus : B) :
    cpu.step (f bus) = ((cpu.step bus).1, (cpu.step bus).2.1, f (cpu.step bus).2.2) := by
  unfold Cpu.step
  split
  · rw [h.spend]
  · simp only [h.fetchByte, h.resolve]
    split
    · rw [h.jam]
    · rw [h.perform]

/-! ## Runs -/

theorem advance (h : BusMap f) (cpu : Cpu T) (bus : B) :
    cpu.advance (f bus) = ((cpu.advance bus).1, f (cpu.advance bus).2) := by
  simp only [Cpu.advance, h.poll, h.step]

theorem runThrough (h : BusMap f) (cpu : Cpu T) (bus : B) (last : Nat) :
    cpu.runThrough (f bus) last =
      ((cpu.runThrough bus last).1, f (cpu.runThrough bus last).2) := by
  fun_induction Cpu.runThrough cpu bus last with
  | case1 cpu bus hle next ih =>
    rw [Cpu.runThrough, dif_pos hle, h.advance]
    exact ih
  | case2 cpu bus hlt => rw [Cpu.runThrough, dif_neg hlt]

/-- A run to a limit. -/
theorem runTo [Time T] (h : BusMap f) (cpu : Cpu T) (bus : B) (limit : T) :
    cpu.runTo (f bus) limit = ((cpu.runTo bus limit).1, f (cpu.runTo bus limit).2) := by
  unfold Cpu.runTo
  cases cpu.lastStart? limit with
  | none => rfl
  | some last => exact h.runThrough cpu bus last

end BusMap

end Famicom
