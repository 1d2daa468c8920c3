import Famicom.Cpu.Basic
import Famicom.Cpu.Opcode

/-!
# One instruction

`Cpu.step` fetches an opcode, resolves its operand, performs its effect and lets its cycles pass. A
transfer to sprite memory that the instruction has asked for is made at once and stalls the
processor. The count returned is the number of cycles that have passed: `cycle_step`.
-/

namespace Famicom

open SystemBus

namespace Cpu

variable {T B : Type} [SystemBus B]

/-- Cycles that a halted processor spends on not executing an instruction. -/
def jammedCycles : Nat := 2

/-- Cycles of a transfer to sprite memory: one more if it begins on an odd cycle. -/
def transferCycles (totalCycles : Nat) : Nat := if totalCycles % 2 = 1 then 514 else 513

/-- Let cycles pass and report them. -/
def spend (cpu : Cpu T) (bus : B) (cycles : Nat) : Nat × Cpu T × B :=
  let (cpu, bus) := cpu.elapse bus cycles
  (cycles, cpu, bus)

/-- Meet an opcode that stops the sequencer: start anew, or stay on the opcode. -/
def jam (cpu : Cpu T) (bus : B) : Nat × Cpu T × B :=
  match cpu.jamBehavior with
  | .reset =>
    let (cpu, bus) := cpu.restart bus
    (Interrupt.cycles, cpu, bus)
  | .halt =>
    let registers := { cpu.registers with pc := cpu.registers.pc - 1 }
    { cpu with registers, jammed := true }.spend bus jammedCycles

/-- Make the transfer to sprite memory that has been requested, if there is one. -/
def serveTransfer (cpu : Cpu T) (bus : B) : Nat × Cpu T × B :=
  let (request, bus) := takeDmaRequest bus
  match request with
  | none => (0, cpu, bus)
  | some page =>
    let stall := transferCycles cpu.totalCycles
    cpu.spend (transferPage bus page) stall

/-- Perform an opcode whose operand is resolved. -/
def perform (cpu : Cpu T) (bus : B) (opcode : Opcode) (operand : Operand) : Nat × Cpu T × B :=
  let cost := opcode.cost operand cpu.registers.p
  let (registers, bus) := opcode.operation.effect.run operand cpu.registers bus
  let (cpu, bus) := { cpu with registers }.elapse bus cost
  let (stall, cpu, bus) := cpu.serveTransfer bus
  (cost + stall, cpu, bus)

/-- Execute one instruction and report the cycles that it took. -/
def step (cpu : Cpu T) (bus : B) : Nat × Cpu T × B :=
  if cpu.jammed then cpu.spend bus jammedCycles
  else
    let (code, registers, bus) := cpu.registers.fetchByte bus
    let opcode := Opcode.ofByte code
    let (operand, registers, bus) := opcode.mode.resolve registers bus
    let cpu := { cpu with registers }
    if opcode.operation = .kil then cpu.jam bus
    else cpu.perform bus opcode operand

/-- A part of an instruction returns the cycles by which it advances both counters. -/
def Counts (cpu : Cpu T) (result : Nat × Cpu T × B) : Prop :=
  result.2.1.cycle = cpu.cycle + result.1 ∧ result.2.1.totalCycles = cpu.totalCycles + result.1

theorem counts_spend (cpu : Cpu T) (bus : B) (n : Nat) : Counts cpu (cpu.spend bus n) :=
  ⟨rfl, rfl⟩

theorem counts_jam (cpu : Cpu T) (bus : B) :
    Counts cpu (cpu.jam bus) ∧ 2 ≤ (cpu.jam bus).1 := by
  unfold jam
  split
  · exact ⟨⟨rfl, rfl⟩, Nat.le_of_ble_eq_true rfl⟩
  · exact ⟨⟨rfl, rfl⟩, Nat.le_refl _⟩

theorem counts_serveTransfer (cpu : Cpu T) (bus : B) : Counts cpu (cpu.serveTransfer bus) := by
  unfold serveTransfer
  rcases takeDmaRequest bus with ⟨_ | page, bus⟩
  · exact ⟨rfl, rfl⟩
  · exact counts_spend cpu _ _

theorem counts_perform (cpu : Cpu T) (bus : B) (opcode : Opcode) (operand : Operand) :
    Counts cpu (cpu.perform bus opcode operand) ∧
      2 ≤ (cpu.perform bus opcode operand).1 := by
  have h := opcode.two_le_cost operand cpu.registers.p
  unfold perform
  rcases opcode.operation.effect.run operand cpu.registers bus with ⟨registers, bus⟩
  rcases he : { cpu with registers }.elapse bus (opcode.cost operand cpu.registers.p)
    with ⟨spent, bus⟩
  have hs := counts_serveTransfer spent bus
  rcases hr : spent.serveTransfer bus with ⟨stall, next, bus⟩
  have h1 : spent.cycle = cpu.cycle + opcode.cost operand cpu.registers.p :=
    congrArg (·.1.cycle) he.symm
  have h2 : spent.totalCycles = cpu.totalCycles + opcode.cost operand cpu.registers.p :=
    congrArg (·.1.totalCycles) he.symm
  simp only [Counts, he, hr] at hs ⊢
  omega

/-- The count returned is the advance of both counters, and it is at least two. -/
theorem counts_step (cpu : Cpu T) (bus : B) :
    Counts cpu (cpu.step bus) ∧ 2 ≤ (cpu.step bus).1 := by
  unfold step
  split
  · exact ⟨counts_spend cpu bus _, Nat.le_refl _⟩
  · rcases cpu.registers.fetchByte bus with ⟨code, registers, bus⟩
    rcases h : (Opcode.ofByte code).mode.resolve registers bus with ⟨operand, registers, bus⟩
    simp only [h]
    split
    · exact counts_jam { cpu with registers } bus
    · exact counts_perform { cpu with registers } bus _ operand

end Cpu

end Famicom
