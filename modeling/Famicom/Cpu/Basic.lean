import Famicom.Cpu.Interrupt
import Famicom.Time

/-!
# The processor

Registers, cycle counters and the state of the instruction sequencer. `cycle` counts within the
current frame and `totalCycles` since power-on; `Cpu.elapse` moves both, and the devices that share
the processor's clock with them. A frame need not last a whole number of cycles: `Cpu.endFrame`
takes the whole part off `cycle` and carries the rest in `cycleOffset`.
-/

namespace Famicom

open SystemBus

/-- What an opcode that stops the sequencer leads to. -/
inductive JamBehavior where
  /-- The reset sequence runs and the program starts anew. -/
  | reset
  /-- The processor stays on the opcode for ever. -/
  | halt
  deriving DecidableEq, Repr, Inhabited

/-- The processor; `T` measures the fraction of a cycle that a frame leaves over. -/
structure Cpu (T : Type) where
  registers : Registers
  /-- Cycles since the start of the frame, less its fraction. -/
  cycle : Nat
  /-- Cycles since power-on. -/
  totalCycles : Nat
  /-- The fraction of a cycle by which the frame begins late. -/
  cycleOffset : T
  jamBehavior : JamBehavior
  /-- Whether the processor is halted for ever. -/
  jammed : Bool

namespace Cpu

variable {T B : Type} [SystemBus B]

/-- A processor that has not been switched on. -/
def new [Time T] : Cpu T where
  registers := .powerOn
  cycle := 0
  totalCycles := 0
  cycleOffset := Time.zero
  jamBehavior := .reset
  jammed := false

/-- Switch the processor on: the reset sequence has run and its cycles are counted. -/
def powerOn [Time T] (cpu : Cpu T) (bus : B) : Cpu T × B :=
  let (pc, bus) := readWord bus Interrupt.resetVector
  ({ registers := { Registers.powerOn with pc }
     cycle := Interrupt.cycles
     totalCycles := Interrupt.cycles
     cycleOffset := Time.zero
     jamBehavior := cpu.jamBehavior
     jammed := false }, bus)

/-- Let some cycles pass. -/
def elapse (cpu : Cpu T) (bus : B) (cycles : Nat) : Cpu T × B :=
  ({ cpu with cycle := cpu.cycle + cycles, totalCycles := cpu.totalCycles + cycles },
    clock bus cycles)

/-- Close a frame of so many cycles. -/
def endFrame [Time T] (cpu : Cpu T) (frameCycles : T) : Cpu T :=
  let due := cpu.cycleOffset + frameCycles
  let whole := Time.floor due
  { cpu with
    cycleOffset := due - whole
    cycle := cpu.cycle - (Time.lastUnit? whole).getD 0 }

/-- Run a sequence of the interrupt logic. -/
def runSequence (cpu : Cpu T) (bus : B) (sequence : Registers → B → Registers × B) : Cpu T × B :=
  let (registers, bus) := sequence cpu.registers bus
  { cpu with registers }.elapse bus Interrupt.cycles

/-- The non-maskable interrupt. -/
def nmi (cpu : Cpu T) (bus : B) : Cpu T × B :=
  cpu.runSequence bus fun r bus => r.interrupt bus Interrupt.nmiVector false

/-- The maskable interrupt; nothing happens while interrupts are disabled. -/
def irq (cpu : Cpu T) (bus : B) : Cpu T × B :=
  if cpu.registers.p.interruptDisable then (cpu, bus)
  else cpu.runSequence bus fun r bus => r.interrupt bus Interrupt.irqVector false

/-- The reset sequence. -/
def restart (cpu : Cpu T) (bus : B) : Cpu T × B :=
  cpu.runSequence bus Registers.reset

/-- The reset button, which also frees a halted processor. -/
def reset (cpu : Cpu T) (bus : B) : Cpu T × B :=
  { cpu with jammed := false }.restart bus

/-- Service the pending non-maskable interrupt, or else the maskable one if its line is active. -/
def pollInterrupts (cpu : Cpu T) (bus : B) : Cpu T × B :=
  let (pending, bus) := takeNmi bus
  if pending then cpu.nmi bus
  else if irqLine bus then cpu.irq bus
  else (cpu, bus)

end Cpu

end Famicom
