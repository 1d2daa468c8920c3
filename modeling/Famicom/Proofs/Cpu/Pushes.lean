import Famicom.Proofs.Cpu.Access

/-!
# Pushed status bytes

The status reaches the bus in four ways: the three interrupt sequences push it, and so does an
operation of its own. A handler tells from bit 4 of the copy who has pushed it; bit 5 is always set.

* `Recorder.writes`: what a processor writes, among all of its accesses.
* `Status.bit_pushed`: the two bits of a pushed copy.
* `Cpu.statusPushes`: what exactly an interrupt, a break and a push of the status write.
-/

namespace Famicom

open SystemBus

variable {T B : Type} [SystemBus B]

/-- The two bits of a copy are those of its kind, whatever they are in the register. -/
theorem Status.bit_pushed (p : Status) (software : Bool) :
    Byte.bit (p.pushed software) 5 = true ∧ Byte.bit (p.pushed software) 4 = software := by
  have hcopy : ofByte (p.pushed software) = { p with breakFlag := software, unused := true } :=
    ofByte_toByte _
  exact ⟨congrArg Status.unused hcopy, congrArg Status.breakFlag hcopy⟩

/-- The address and the value of a write. -/
def Access.write? : Access → Option (UInt16 × UInt8)
  | read _ => none
  | write address value => some (address, value)

namespace Recorder

/-- What has been written, the latest first. -/
def writes (r : Recorder B) : List (UInt16 × UInt8) := r.accesses.filterMap Access.write?

theorem writes_clock (r : Recorder B) (cycles : Nat) : (clock r cycles).writes = r.writes := rfl

theorem writes_transferPage (r : Recorder B) (page : UInt8) :
    (transferPage r page).writes = r.writes := by
  unfold transferPage
  rw [Fin.foldl_eq_finRange_foldl]
  generalize List.finRange 256 = offsets
  induction offsets generalizing r with
  | nil => rfl
  | cons offset rest ih => exact ih _

theorem writes_serveTransfer (r : Recorder B) (cpu : Cpu T) :
    (cpu.serveTransfer r).2.2.writes = r.writes := by
  have htake : takeDmaRequest r =
      ((takeDmaRequest r.bus).1, { r with bus := (takeDmaRequest r.bus).2 }) := rfl
  unfold Cpu.serveTransfer
  rw [htake]
  cases (takeDmaRequest r.bus).1 with
  | none => rfl
  | some page => exact (writes_clock _ _).trans (writes_transferPage _ page)

/-- After its effect, an instruction writes nothing more. -/
theorem writes_perform (r : Recorder B) (cpu : Cpu T) (opcode : Opcode) (operand : Operand) :
    (cpu.perform r opcode operand).2.2.writes =
      (opcode.operation.effect.run operand cpu.registers r).2.writes :=
  writes_serveTransfer _ _

end Recorder

/-- What an interrupt sequence writes, the latest first: where to return, and the copy of the
status. -/
def Registers.entryWrites (r : Registers) (back : UInt16) (software : Bool) :
    List (UInt16 × UInt8) :=
  [(stackAddress (r.sp - 1 - 1), r.p.pushed software), (stackAddress (r.sp - 1), Word.low back),
    (stackAddress r.sp, Word.high back)]

/-- The two operations that push the status need no operand. -/
theorem Opcode.mode_of_pushes (code : UInt8) :
    (ofByte code).operation = .php ∨ (ofByte code).operation = .brk →
      (ofByte code).mode = .implied := by
  refine forall_of_table (P := fun opcode =>
    opcode.operation = .php ∨ opcode.operation = .brk → opcode.mode = .implied) ?_ code
  decide +kernel

namespace Cpu

/-- The opcode of the next instruction. -/
def nextOpcode (cpu : Cpu T) (bus : B) : Opcode := .ofByte (read bus cpu.registers.pc).1

/-- The operand of the next instruction, with the registers and the bus behind it. -/
def nextOperand (cpu : Cpu T) (bus : B) : Operand × Registers × B :=
  (cpu.nextOpcode bus).mode.resolve { cpu.registers with pc := cpu.registers.pc + 1 }
    (read bus cpu.registers.pc).2

/-- A halted processor only lets time pass. -/
theorem step_of_jammed {cpu : Cpu T} (h : cpu.jammed = true) (bus : B) :
    cpu.step bus = cpu.spend bus jammedCycles := by
  unfold step
  exact if_pos h

/-- The opcode is read, and the sequencer stops. -/
theorem step_of_kil {cpu : Cpu T} {bus : B} (hrunning : cpu.jammed = false)
    (hkil : (cpu.nextOpcode bus).operation = .kil) :
    cpu.step bus =
      { cpu with registers := (cpu.nextOperand bus).2.1 }.jam (cpu.nextOperand bus).2.2 := by
  unfold step nextOpcode at *
  rw [hrunning, if_neg Bool.false_ne_true]
  exact if_pos hkil

/-- The opcode is read, the operand resolved, and the effect performed. -/
theorem step_of_running {cpu : Cpu T} {bus : B} (hrunning : cpu.jammed = false)
    (hkil : (cpu.nextOpcode bus).operation ≠ .kil) :
    cpu.step bus =
      { cpu with registers := (cpu.nextOperand bus).2.1 }.perform (cpu.nextOperand bus).2.2
        (cpu.nextOpcode bus) (cpu.nextOperand bus).1 := by
  unfold step nextOpcode at *
  rw [hrunning, if_neg Bool.false_ne_true]
  exact if_neg hkil

/-- An instruction without operand. -/
theorem step_of_implied {cpu : Cpu T} {bus : B} (hrunning : cpu.jammed = false)
    (hmode : (cpu.nextOpcode bus).mode = .implied)
    (hkil : (cpu.nextOpcode bus).operation ≠ .kil) :
    cpu.step bus =
      { cpu with registers.pc := cpu.registers.pc + 1 }.perform (read bus cpu.registers.pc).2
        (cpu.nextOpcode bus) .none := by
  rw [step_of_running hrunning hkil]
  unfold nextOperand
  rw [hmode]
  rfl

/-- What the next instruction writes, the latest first. -/
def stepWrites (cpu : Cpu T) (bus : B) : List (UInt16 × UInt8) :=
  (cpu.step (Recorder.start bus)).2.2.writes

/-- An instruction without operand writes what its effect writes. -/
theorem stepWrites_of_implied {cpu : Cpu T} {bus : B} {operation : Operation}
    (hrunning : cpu.jammed = false) (hop : (cpu.nextOpcode bus).operation = operation)
    (hmode : (cpu.nextOpcode bus).mode = .implied) (hkil : operation ≠ .kil) :
    cpu.stepWrites bus =
      (operation.effect.run .none { cpu.registers with pc := cpu.registers.pc + 1 }
        (read (Recorder.start bus) cpu.registers.pc).2).2.writes := by
  subst hop
  unfold stepWrites
  have hstep : cpu.step (Recorder.start bus) = _ := step_of_implied hrunning hmode hkil
  rw [hstep, Recorder.writes_perform]
  rfl

/-- What is written where the status is pushed. -/
structure StatusPushes (cpu : Cpu T) (bus : B) : Prop where
  /-- In every copy bit 5 is set, and bit 4 tells the two kinds of copies apart. -/
  copy : ∀ software, Byte.bit (cpu.registers.p.pushed software) 5 = true ∧
    Byte.bit (cpu.registers.p.pushed software) 4 = software
  /-- The non-maskable interrupt pushes a copy of the hardware kind. -/
  nmi : (cpu.nmi (Recorder.start bus)).2.writes =
    cpu.registers.entryWrites cpu.registers.pc false
  /-- So does the maskable one, unless it is disabled. -/
  irq : (cpu.irq (Recorder.start bus)).2.writes =
    if cpu.registers.p.interruptDisable then []
    else cpu.registers.entryWrites cpu.registers.pc false
  /-- A break pushes a copy of the software kind, and the address after the byte that follows. -/
  brk : cpu.jammed = false → (cpu.nextOpcode bus).operation = .brk →
    cpu.stepWrites bus = cpu.registers.entryWrites (cpu.registers.pc + 1 + 1) true
  /-- A push of the status is of the software kind. -/
  php : cpu.jammed = false → (cpu.nextOpcode bus).operation = .php →
    cpu.stepWrites bus = [(stackAddress cpu.registers.sp, cpu.registers.p.pushed true)]

theorem statusPushes (cpu : Cpu T) (bus : B) : cpu.StatusPushes bus where
  copy := cpu.registers.p.bit_pushed
  nmi := rfl
  irq := by
    unfold Cpu.irq
    split <;> rfl
  brk hrunning hop :=
    stepWrites_of_implied hrunning hop (Opcode.mode_of_pushes _ (.inr hop)) Operation.noConfusion
  php hrunning hop :=
    stepWrites_of_implied hrunning hop (Opcode.mode_of_pushes _ (.inl hop)) Operation.noConfusion

end Cpu

end Famicom
