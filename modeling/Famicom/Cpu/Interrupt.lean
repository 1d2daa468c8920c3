import Famicom.Cpu.Stack

/-!
# Interrupt sequences

The non-maskable interrupt, the maskable one and the break operation share one sequence: push the
program counter and the status, disable interrupts, continue at a vector. They differ in the
vector and in the break flag of the pushed status. Reset moves the stack pointer likewise but
writes nothing.
-/

namespace Famicom

open SystemBus

namespace Interrupt

/-- Where the address of the non-maskable handler lies. -/
def nmiVector : UInt16 := 0xFFFA

/-- Where the start address lies. -/
def resetVector : UInt16 := 0xFFFC

/-- Where the address of the maskable handler lies, which the break operation shares. -/
def irqVector : UInt16 := 0xFFFE

/-- The cycles of every sequence. -/
def cycles : Nat := 7

end Interrupt

namespace Registers

variable {B : Type} [SystemBus B]

/-- Leave the program for the handler at `vector`; `software` tells the break operation from a
hardware interrupt. -/
def interrupt (r : Registers) (bus : B) (vector : UInt16) (software : Bool) : Registers × B :=
  let (r, bus) := r.pushWord bus r.pc
  let (r, bus) := r.push bus (r.p.pushed software)
  let (pc, bus) := readWord bus vector
  ({ r with pc, p.interruptDisable := true }, bus)

/-- The reset sequence. -/
def reset (r : Registers) (bus : B) : Registers × B :=
  let (pc, bus) := readWord bus Interrupt.resetVector
  ({ r with sp := r.sp - 3, pc, p.interruptDisable := true }, bus)

end Registers

end Famicom
