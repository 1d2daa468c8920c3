import Famicom.Proofs.Bus.Cells
import Famicom.Proofs.Cpu.Flags

/-!
# The way back

An interrupt sequence leaves three bytes on the stack, and a call two. The operations that return
find them there: they lead back to the registers of before, and of work RAM no other cell has
changed. It does not matter where in its page the stack pointer is, nor where in memory the program.

* `Operation.run_rti`, `Operation.run_rts`: what a return makes of what lies on the stack.
* `ComesBack`: a return leads back from where the processor has been led.
* `ComesBack.of_interrupt`, `ComesBack.of_call`: so it does from an interrupt sequence and a call.
* `Cpu.findsBack`: the ways into a handler or a subroutine, and back.
-/

namespace Famicom

open SystemBus

variable {T C A D : Type} [Cartridge C] [Apu A] [Controller D]

/-- The status register after an interrupt and the return from it. -/
def Status.restored (p : Status) : Status := { p with breakFlag := false, unused := true }

/-- A pulled copy does not tell who has pushed it. -/
theorem Status.pulled_pushed (p : Status) (software : Bool) :
    pulled (p.pushed software) = p.restored := by
  unfold pulled pushed
  rw [ofByte_toByte]
  rfl

/-- Bit 4 is cleared, and bit 5 is set. -/
theorem Status.toByte_restored (p : Status) : p.restored.toByte = p.toByte &&& 0xEF ||| 0x20 := by
  have hpulled := toByte_pulled p.toByte
  unfold pulled at hpulled
  rwa [ofByte_toByte] at hpulled

/-! ## Returns -/

namespace Operation

/-- The return from an interrupt takes the three topmost bytes. -/
theorem run_rti {bus : Bus C A D} {r : Registers} {status lo hi : UInt8}
    (h : bus.ram.Stacked r.sp [status, lo, hi]) (operand : Operand) :
    rti.effect.run operand r bus =
      ({ r with sp := r.sp + 1 + 1 + 1, pc := Word.ofBytes lo hi, p := .pulled status }, bus) := by
  have hstatus := bus.pull_of_stacked h
  have hlo := bus.pull_of_stacked (r := { r with sp := r.sp + 1 }) h.pop.2
  have hhi := bus.pull_of_stacked (r := { r with sp := r.sp + 1 + 1 }) h.pop.2.pop.2
  simp only [effect, Effect.run, Registers.pullWord, hstatus, hlo, hhi]

/-- The return from a call takes the two topmost bytes. -/
theorem run_rts {bus : Bus C A D} {r : Registers} {lo hi : UInt8}
    (h : bus.ram.Stacked r.sp [lo, hi]) (operand : Operand) :
    rts.effect.run operand r bus =
      ({ r with sp := r.sp + 1 + 1, pc := Word.ofBytes lo hi + 1 }, bus) := by
  have hlo := bus.pull_of_stacked h
  have hhi := bus.pull_of_stacked (r := { r with sp := r.sp + 1 }) h.pop.2
  simp only [effect, Effect.run, Registers.pullWord, hlo, hhi]

end Operation

/-- The operations that return need no operand. -/
theorem Opcode.mode_of_returns (code : UInt8) :
    (ofByte code).operation = .rts ∨ (ofByte code).operation = .rti →
      (ofByte code).mode = .implied := by
  refine forall_of_table (P := fun opcode =>
    opcode.operation = .rts ∨ opcode.operation = .rti → opcode.mode = .implied) ?_ code
  decide +kernel

/-- A call names its target by a full address. -/
theorem Opcode.mode_of_call (code : UInt8) :
    (ofByte code).operation = .jsr → (ofByte code).mode = .absolute := by
  refine forall_of_table (P := fun opcode =>
    opcode.operation = .jsr → opcode.mode = .absolute) ?_ code
  decide +kernel

/-- A return leads from where the processor is to the registers `back`; work RAM has then the bytes
of `ram`, but for some cells. -/
structure ComesBack (entered : Cpu T × Bus C A D) (returning : Operation) (back : Registers)
    (ram : WorkRam) (cells : List UInt16) : Prop where
  /-- So does the operation that follows at once, -/
  operation : ∀ operand,
    (returning.effect.run operand entered.1.registers entered.2).1 = back ∧
      ram.SameBut cells (returning.effect.run operand entered.1.registers entered.2).2.ram
  /-- and so does the next instruction, if it is a return. -/
  instruction : entered.1.jammed = false →
    (entered.1.nextOpcode entered.2).operation = returning →
      (entered.1.step entered.2).2.1.registers = back ∧
        ram.SameBut cells (entered.1.step entered.2).2.2.ram

namespace ComesBack

variable {entered : Cpu T × Bus C A D} {returning : Operation} {back r : Registers}
  {bus : Bus C A D} {ram : WorkRam} {cells : List UInt16}

/-- A return does not depend on the program counter, nor on more of the bus than work RAM. -/
theorem of_run (hreturning : returning = .rts ∨ returning = .rti)
    (hrun : ∀ (pc : UInt16) (bus : Bus C A D) operand, bus.ram = entered.2.ram →
      returning.effect.run operand { entered.1.registers with pc } bus = (back, bus))
    (hram : ram.SameBut cells entered.2.ram) :
    ComesBack entered returning back ram cells where
  operation operand := by
    have hsame := hrun entered.1.registers.pc entered.2 operand rfl
    rw [hsame]
    exact ⟨rfl, hram⟩
  instruction hrunning hop := by
    have himplied := Opcode.mode_of_returns _ (hop ▸ hreturning)
    have hkil : returning ≠ .kil := by
      rcases hreturning with rfl | rfl <;> exact Operation.noConfusion
    have hread := entered.2.ram_read entered.1.registers.pc
    have hsame := hrun (entered.1.registers.pc + 1) _ .none hread
    rw [Cpu.step_of_implied hrunning himplied (hop ▸ hkil), Cpu.registers_perform, Bus.ram_perform,
      hop, hsame]
    exact ⟨rfl, hread ▸ hram⟩

/-- The return from an interrupt leads back from an interrupt sequence. -/
theorem of_interrupt (vector : UInt16) (software : Bool)
    (hregisters : entered.1.registers = (r.interrupt bus vector software).1)
    (hram : entered.2.ram = (r.interrupt bus vector software).2.ram) :
    ComesBack entered .rti { r with p := r.p.restored } bus.ram
      [stackAddress r.sp, stackAddress (r.sp - 1), stackAddress (r.sp - 2)] := by
  -- The vector is read after the pushes, and reading it leaves work RAM alone.
  have hpushed : entered.2.ram =
      ((bus.ram.store (stackAddress r.sp).toNat (Word.high r.pc)).store
        (stackAddress (r.sp - 1)).toNat (Word.low r.pc)).store
          (stackAddress (r.sp - 1 - 1)).toNat (r.p.pushed software) := by
    rw [hram]
    simp only [Registers.interrupt, Registers.pushWord, readWord, Bus.push_eq, Bus.ram_read]
  have hstacked : entered.2.ram.Stacked (r.sp - 1 - 1 - 1)
      [r.p.pushed software, Word.low r.pc, Word.high r.pc] := by
    rw [hpushed]
    exact (((bus.ram.stacked_nil r.sp).store (by decide) _).store (by simp) _).store (by simp) _
  obtain ⟨start, hentered⟩ : ∃ start, entered.1.registers =
      { r with sp := r.sp - 1 - 1 - 1, pc := start, p.interruptDisable := true } :=
    ⟨_, hregisters⟩
  have hsp : r.sp - 1 - 1 - 1 + 1 + 1 + 1 = r.sp := by grind
  have htwo : r.sp - 2 = r.sp - 1 - 1 := by grind
  refine of_run (.inr rfl) (fun pc later operand hsame => ?_) ?_
  · rw [hentered, Operation.run_rti (hsame ▸ hstacked), Status.pulled_pushed,
      Word.ofBytes_low_high]
    simp only [hsp]
  · rw [hpushed, htwo]
    exact (((WorkRam.SameBut.refl bus.ram).store _ _).store _ _).store _ _

/-- The return from a call leads back from a call. -/
theorem of_call (target : UInt16)
    (hregisters : entered.1.registers = { (r.pushWord bus (r.pc - 1)).1 with pc := target })
    (hram : entered.2.ram = (r.pushWord bus (r.pc - 1)).2.ram) :
    ComesBack entered .rts r bus.ram [stackAddress r.sp, stackAddress (r.sp - 1)] := by
  have hpushed : entered.2.ram =
      (bus.ram.store (stackAddress r.sp).toNat (Word.high (r.pc - 1))).store
        (stackAddress (r.sp - 1)).toNat (Word.low (r.pc - 1)) := by
    rw [hram]
    simp only [Registers.pushWord, Bus.push_eq]
  have hstacked : entered.2.ram.Stacked (r.sp - 1 - 1)
      [Word.low (r.pc - 1), Word.high (r.pc - 1)] := by
    rw [hpushed]
    exact ((bus.ram.stacked_nil r.sp).store (by decide) _).store (by simp) _
  have hentered : entered.1.registers = { r with sp := r.sp - 1 - 1, pc := target } := hregisters
  have hsp : r.sp - 1 - 1 + 1 + 1 = r.sp := by grind
  refine of_run (.inl rfl) (fun pc later operand hsame => ?_) ?_
  · rw [hentered, Operation.run_rts (hsame ▸ hstacked), Word.ofBytes_low_high]
    simp only [hsp, UInt16.sub_add_cancel]
  · rw [hpushed]
    exact ((WorkRam.SameBut.refl bus.ram).store _ _).store _ _

end ComesBack

namespace Cpu

/-- The ways into a handler or a subroutine, and back. -/
structure FindsBack (cpu : Cpu T) (bus : Bus C A D) : Prop where
  /-- The status comes back from an interrupt with bit 4 cleared and bit 5 set. -/
  status : cpu.registers.p.restored.toByte = cpu.registers.p.toByte &&& 0xEF ||| 0x20
  /-- From the non-maskable interrupt to where it has come, -/
  nmi : ComesBack (cpu.nmi bus) .rti { cpu.registers with p := cpu.registers.p.restored } bus.ram
    [stackAddress cpu.registers.sp, stackAddress (cpu.registers.sp - 1),
      stackAddress (cpu.registers.sp - 2)]
  /-- and likewise from the maskable one, if it is not disabled. -/
  irq : cpu.registers.p.interruptDisable = false →
    ComesBack (cpu.irq bus) .rti { cpu.registers with p := cpu.registers.p.restored } bus.ram
      [stackAddress cpu.registers.sp, stackAddress (cpu.registers.sp - 1),
        stackAddress (cpu.registers.sp - 2)]
  /-- From a break to the second byte after it. -/
  brk : cpu.jammed = false → (cpu.nextOpcode bus).operation = .brk →
    ComesBack (cpu.step bus).2 .rti
      { cpu.registers with pc := cpu.registers.pc + 2, p := cpu.registers.p.restored } bus.ram
      [stackAddress cpu.registers.sp, stackAddress (cpu.registers.sp - 1),
        stackAddress (cpu.registers.sp - 2)]
  /-- From a call to the next instruction, whatever has been called. -/
  jsr : cpu.jammed = false → (cpu.nextOpcode bus).operation = .jsr →
    ComesBack (cpu.step bus).2 .rts { cpu.registers with pc := cpu.registers.pc + 3 } bus.ram
      [stackAddress cpu.registers.sp, stackAddress (cpu.registers.sp - 1)]

theorem findsBack (cpu : Cpu T) (bus : Bus C A D) : cpu.FindsBack bus where
  status := cpu.registers.p.toByte_restored
  nmi := .of_interrupt (r := cpu.registers) Interrupt.nmiVector false rfl rfl
  irq henabled := by
    have hirq : cpu.irq bus =
        cpu.runSequence bus fun r bus => r.interrupt bus Interrupt.irqVector false :=
      if_neg (Bool.eq_false_iff.mp henabled)
    rw [hirq]
    exact .of_interrupt (r := cpu.registers) Interrupt.irqVector false rfl rfl
  brk hrunning hop := by
    have hmode := Opcode.mode_of_pushes _ (.inr hop)
    have hkil : (cpu.nextOpcode bus).operation ≠ .kil := hop ▸ Operation.noConfusion
    have hstep := step_of_implied hrunning hmode hkil
    have hpc : cpu.registers.pc + 2 = cpu.registers.pc + 1 + 1 := by grind
    rw [hpc, ← bus.ram_read cpu.registers.pc, hstep]
    refine .of_interrupt (r := { cpu.registers with pc := cpu.registers.pc + 1 + 1 })
      Interrupt.irqVector true ?_ ?_
    · rw [registers_perform, hop]
      rfl
    · rw [Bus.ram_perform, hop]
      rfl
  jsr hrunning hop := by
    have hmode := Opcode.mode_of_call _ hop
    have hkil : (cpu.nextOpcode bus).operation ≠ .kil := hop ▸ Operation.noConfusion
    have hstep := step_of_running hrunning hkil
    have hoperand : (cpu.nextOperand bus).2.1 =
        { cpu.registers with pc := cpu.registers.pc + 1 + 1 + 1 } := by
      rw [nextOperand, nextOpcode, hmode]
      rfl
    have hpc : cpu.registers.pc + 3 = cpu.registers.pc + 1 + 1 + 1 := by grind
    rw [hpc, ← hoperand, ← bus.ram_nextOperand cpu, hstep, ← cpu.sp_nextOperand bus]
    refine .of_call (r := (cpu.nextOperand bus).2.1) (cpu.nextOperand bus).1.address ?_ ?_
    · rw [registers_perform, hop]
      rfl
    · rw [Bus.ram_perform, hop]
      rfl

end Cpu

end Famicom
