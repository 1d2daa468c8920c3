import Famicom.Proofs.Cpu.Timetable

/-!
# The flags that an instruction may change

Each operation has flags that describe its result, or that it is there to set or clear; it leaves
the others alone. Operations share the helpers of the arithmetic, so what a helper does to the flags
is stated once.

* `StatusFlag`: the bits of the status register, one by one.
* `Operation.affects`: the flags that an operation may change.
* `Effect.Spares`, `Operation.effect_spares`: it changes no other.
* `Cpu.flagsKept`: what becomes of the flags in an instruction.
-/

namespace Famicom

open SystemBus

/-- The flags of the status register, from bit 0 to bit 7. -/
inductive StatusFlag where
  | carry | zero | interruptDisable | decimal | breakFlag | unused | overflow | negative
  deriving DecidableEq, Repr

/-- The value of a flag. -/
def Status.flag (p : Status) : StatusFlag → Bool
  | .carry => p.carry
  | .zero => p.zero
  | .interruptDisable => p.interruptDisable
  | .decimal => p.decimal
  | .breakFlag => p.breakFlag
  | .unused => p.unused
  | .overflow => p.overflow
  | .negative => p.negative

/-- Registers are equal if all their flags are. -/
theorem Status.eq_of_flag {p later : Status} (h : ∀ flag, later.flag flag = p.flag flag) :
    later = p := by
  obtain ⟨c, z, i, d, b, u, v, n⟩ := p
  obtain rfl := h .carry
  obtain rfl := h .zero
  obtain rfl := h .interruptDisable
  obtain rfl := h .decimal
  obtain rfl := h .breakFlag
  obtain rfl := h .unused
  obtain rfl := h .overflow
  obtain rfl := h .negative
  rfl

namespace StatusFlag

/-- All flags. -/
def all : List StatusFlag :=
  [carry, zero, interruptDisable, decimal, breakFlag, unused, overflow, negative]

variable {flag : StatusFlag} {few many : List StatusFlag}

theorem mem_all (flag : StatusFlag) : flag ∈ all := by
  cases flag <;> decide

theorem notMem_of_subset (h : flag ∉ many) (hsub : few ⊆ many := by decide) : flag ∉ few :=
  fun hmem => h (hsub hmem)

end StatusFlag

/-- The flags that an operation may change. -/
def Operation.affects : Operation → List StatusFlag
  | .lda | .ldx | .ldy | .tax | .tay | .txa | .tya | .tsx | .pla | .inc | .dec | .inx | .iny | .dex
  | .dey | .and | .ora | .eor | .lax | .las | .xaa | .lxa => [.negative, .zero]
  | .asl | .lsr | .rol | .ror | .cmp | .cpx | .cpy | .slo | .rla | .sre | .dcp | .anc | .alr
  | .axs => [.negative, .zero, .carry]
  | .adc | .sbc | .rra | .isc | .arr => [.negative, .overflow, .zero, .carry]
  | .bit => [.negative, .overflow, .zero]
  | .clc | .sec => [.carry]
  | .cli | .sei => [.interruptDisable]
  | .cld | .sed => [.decimal]
  | .clv => [.overflow]
  | .brk | .kil => [.interruptDisable]
  | .plp | .rti => StatusFlag.all
  | .sta | .stx | .sty | .bcc | .bcs | .beq | .bmi | .bne | .bpl | .bvc | .bvs | .jmp | .jsr | .rts
  | .pha | .php | .txs | .nop | .sax | .shx | .shy | .ahx | .tas => []

/-! ## Arithmetic -/

section

variable {flag : StatusFlag}

theorem Status.flag_ofResult (h : flag ∉ [.negative, .zero]) (p : Status) (v : UInt8) :
    (p.ofResult v).flag flag = p.flag flag := by
  cases flag <;> first | rfl | exact absurd (by decide) h

namespace Alu

theorem flag_wrap (h : flag ∉ [.negative, .zero, .carry]) (raw : Nat) (p : Status) :
    (wrap raw p).2.flag flag = p.flag flag := by
  cases flag <;> first | rfl | exact absurd (by decide) h

theorem flag_add (h : flag ∉ [.negative, .overflow, .zero, .carry]) (a m : UInt8) (p : Status) :
    (add a m p).2.flag flag = p.flag flag := by
  cases flag <;> first | rfl | exact absurd (by decide) h

theorem flag_subtract (h : flag ∉ [.negative, .overflow, .zero, .carry]) (a m : UInt8)
    (p : Status) : (subtract a m p).2.flag flag = p.flag flag :=
  flag_add h a _ p

theorem flag_compare (h : flag ∉ [.negative, .zero, .carry]) (register m : UInt8) (p : Status) :
    (compare register m p).flag flag = p.flag flag :=
  flag_wrap h _ p

theorem flag_shiftRight (h : flag ∉ [.negative, .zero, .carry]) (v : UInt8) (p : Status) :
    (shiftRight v p).2.flag flag = p.flag flag := by
  cases flag <;> first | rfl | exact absurd (by decide) h

theorem flag_rotateRight (h : flag ∉ [.negative, .zero, .carry]) (v : UInt8) (p : Status) :
    (rotateRight v p).2.flag flag = p.flag flag := by
  cases flag <;> first | rfl | exact absurd (by decide) h

theorem flag_bitTest (h : flag ∉ [.negative, .overflow, .zero]) (a m : UInt8) (p : Status) :
    (bitTest a m p).flag flag = p.flag flag := by
  cases flag <;> first | rfl | exact absurd (by decide) h

end Alu

/-! ## Effects -/

/-- The functions inside an effect keep a flag, and what it does itself keeps it too. -/
def Effect.Spares (flag : StatusFlag) : Effect → Prop
  | internal f => ∀ r, (f r).p.flag flag = r.p.flag flag
  | load f | pull f => ∀ r v, (f r v).p.flag flag = r.p.flag flag
  | modify f absorb =>
    (∀ v p, (f v p).2.flag flag = p.flag flag) ∧ ∀ r v, (absorb r v).p.flag flag = r.p.flag flag
  | storeMasked _ _ prepare => ∀ r, (prepare r).p.flag flag = r.p.flag flag
  | softwareInterrupt => flag ≠ .interruptDisable
  | interruptReturn => False
  | store _ | branch _ | jump | call | callReturn | push _ | jam => True

/-- An effect that spares a flag keeps it. -/
theorem Effect.Spares.run {B : Type} [SystemBus B] {effect : Effect} (h : effect.Spares flag)
    (operand : Operand) (r : Registers) (bus : B) :
    (effect.run operand r bus).1.p.flag flag = r.p.flag flag := by
  cases effect with
  | internal f => exact h r
  | load f => exact h r _
  | modify f absorb =>
    obtain ⟨hf, habsorb⟩ := h
    cases operand with
    | inline v => exact (habsorb _ _).trans (hf _ _)
    | _ => exact (habsorb _ _).trans (hf _ _)
  | storeMasked index value prepare => exact h r
  | branch taken =>
    unfold Effect.run
    dsimp only
    split <;> rfl
  | pull f => exact h _ _
  | softwareInterrupt =>
    cases flag with
    | interruptDisable => exact absurd rfl h
    | _ => rfl
  | interruptReturn => exact h.elim
  | _ => rfl

namespace Operation

open StatusFlag in
/-- An operation spares the flags that it does not affect. -/
theorem effect_spares {operation : Operation} (h : flag ∉ operation.affects) :
    operation.effect.Spares flag := by
  cases operation with
  | lda | ldx | ldy | lax | las | lxa | xaa | and | ora | eor =>
    exact fun r v => Status.flag_ofResult h _ _
  | tax | tay | txa | tya | tsx | inx | iny | dex | dey =>
    exact fun r => Status.flag_ofResult h _ _
  | pla => exact fun r v => Status.flag_ofResult h _ _
  | adc => exact fun r m => Alu.flag_add h _ _ _
  | sbc => exact fun r m => Alu.flag_subtract h _ _ _
  | cmp | cpx | cpy => exact fun r m => Alu.flag_compare h _ _ _
  | axs => exact fun r m => Alu.flag_wrap h _ _
  | bit => exact fun r m => Alu.flag_bitTest h _ _ _
  | alr => exact fun r m => Alu.flag_shiftRight h _ _
  -- These two set flags by themselves, after the helper.
  | anc | arr =>
    intro r m
    cases flag <;> first | rfl | exact absurd (by decide) h
  | inc | dec => exact ⟨fun v p => Status.flag_ofResult h _ _, fun _ _ => rfl⟩
  | asl | rol => exact ⟨fun v p => Alu.flag_wrap h _ _, fun _ _ => rfl⟩
  | lsr => exact ⟨fun v p => Alu.flag_shiftRight h _ _, fun _ _ => rfl⟩
  | ror => exact ⟨fun v p => Alu.flag_rotateRight h _ _, fun _ _ => rfl⟩
  | slo | rla =>
    exact ⟨fun v p => Alu.flag_wrap h _ _,
      fun r v => Status.flag_ofResult (notMem_of_subset h) _ _⟩
  | sre =>
    exact ⟨fun v p => Alu.flag_shiftRight h _ _,
      fun r v => Status.flag_ofResult (notMem_of_subset h) _ _⟩
  | rra =>
    exact ⟨fun v p => Alu.flag_rotateRight (notMem_of_subset h) _ _,
      fun r v => Alu.flag_add h _ _ _⟩
  | dcp =>
    exact ⟨fun v p => Status.flag_ofResult (notMem_of_subset h) _ _,
      fun r v => Alu.flag_compare h _ _ _⟩
  | isc =>
    exact ⟨fun v p => Status.flag_ofResult (notMem_of_subset h) _ _,
      fun r v => Alu.flag_subtract h _ _ _⟩
  | clc | sec | cli | sei | cld | sed | clv =>
    intro r
    cases flag <;> first | rfl | exact absurd (by decide) h
  | brk => exact fun heq => h (heq ▸ List.mem_singleton_self _)
  | plp | rti => exact absurd (mem_all flag) h
  | shy | shx | ahx | tas | txs => exact fun _ => rfl
  | nop => exact fun _ _ => rfl
  | sta | stx | sty | sax | pha | php | bcc | bcs | bne | beq | bpl | bmi | bvc | bvs | jmp | jsr
  | rts | kil => exact trivial

end Operation

end

/-! ## Instructions -/

/-- A pull drops the break flag, and the unused bit stays one. -/
theorem Status.toByte_pulled : ∀ b : UInt8, (pulled b).toByte = b &&& 0xEF ||| 0x20 :=
  Byte.forall_of_fin (by decide +kernel)

/-- The operations that pull the status need no operand. -/
theorem Opcode.mode_of_pulls (code : UInt8) :
    (ofByte code).operation = .plp ∨ (ofByte code).operation = .rti →
      (ofByte code).mode = .implied := by
  refine forall_of_table (P := fun opcode =>
    opcode.operation = .plp ∨ opcode.operation = .rti → opcode.mode = .implied) ?_ code
  decide +kernel

namespace Cpu

variable {T B : Type} [SystemBus B] {cpu : Cpu T} {bus : B} {flag : StatusFlag}

/-- The topmost byte of the stack, once the opcode has been read. -/
def pulledByte (cpu : Cpu T) (bus : B) : UInt8 :=
  (read (read bus cpu.registers.pc).2 (stackAddress (cpu.registers.sp + 1))).1

/-- The registers are those that the effect leaves. -/
theorem registers_perform (cpu : Cpu T) (bus : B) (opcode : Opcode) (operand : Operand) :
    (cpu.perform bus opcode operand).2.1.registers =
      (opcode.operation.effect.run operand cpu.registers bus).1 := by
  unfold perform serveTransfer
  dsimp only
  split <;> rfl

theorem p_nextOperand (cpu : Cpu T) (bus : B) : (cpu.nextOperand bus).2.1.p = cpu.registers.p :=
  AddressingMode.p_resolve _ _ _

theorem p_step_of_jammed (h : cpu.jammed = true) (bus : B) :
    (cpu.step bus).2.1.registers.p = cpu.registers.p := by
  rw [step_of_jammed h]
  rfl

/-- The opcode that stops the sequencer runs the reset sequence, or leaves the flags alone. -/
theorem p_step_of_kil (hrunning : cpu.jammed = false)
    (hkil : (cpu.nextOpcode bus).operation = .kil) :
    (cpu.step bus).2.1.registers.p =
      match cpu.jamBehavior with
      | .reset => { cpu.registers.p with interruptDisable := true }
      | .halt => cpu.registers.p := by
  rw [step_of_kil hrunning hkil, ← cpu.p_nextOperand bus]
  unfold jam
  dsimp only
  cases cpu.jamBehavior <;> rfl

/-- Every other opcode leaves the flags that its effect leaves. -/
theorem p_step_of_running (hrunning : cpu.jammed = false)
    (hkil : (cpu.nextOpcode bus).operation ≠ .kil) :
    (cpu.step bus).2.1.registers.p =
      ((cpu.nextOpcode bus).operation.effect.run (cpu.nextOperand bus).1 (cpu.nextOperand bus).2.1
        (cpu.nextOperand bus).2.2).1.p := by
  rw [step_of_running hrunning hkil, registers_perform]

/-- An instruction keeps the flags that its operation does not affect. -/
theorem flag_step (h : flag ∉ (cpu.nextOpcode bus).operation.affects) :
    (cpu.step bus).2.1.registers.p.flag flag = cpu.registers.p.flag flag := by
  cases hjammed : cpu.jammed with
  | true => rw [p_step_of_jammed hjammed]
  | false =>
    by_cases hkil : (cpu.nextOpcode bus).operation = .kil
    · rw [p_step_of_kil hjammed hkil]
      rw [hkil] at h
      cases cpu.jamBehavior with
      | halt => rfl
      | reset => cases flag <;> first | rfl | exact absurd (by decide) h
    · rw [p_step_of_running hjammed hkil, (Operation.effect_spares h).run, p_nextOperand]

/-- What becomes of the flags in the next instruction. -/
structure FlagsKept (cpu : Cpu T) (bus : B) : Prop where
  /-- A halted processor keeps them all. -/
  jammed : cpu.jammed = true → (cpu.step bus).2.1.registers.p = cpu.registers.p
  /-- A flag that the operation does not affect is kept. -/
  spared : ∀ flag ∉ (cpu.nextOpcode bus).operation.affects,
    (cpu.step bus).2.1.registers.p.flag flag = cpu.registers.p.flag flag
  /-- An operation that affects none leaves the register untouched. -/
  untouched : (cpu.nextOpcode bus).operation.affects = [] →
    (cpu.step bus).2.1.registers.p = cpu.registers.p
  /-- A break disables interrupts. -/
  brk : cpu.jammed = false → (cpu.nextOpcode bus).operation = .brk →
    (cpu.step bus).2.1.registers.p = { cpu.registers.p with interruptDisable := true }
  /-- The opcode that stops the sequencer does so too if it leads to a reset. -/
  kil : cpu.jammed = false → (cpu.nextOpcode bus).operation = .kil →
    (cpu.step bus).2.1.registers.p =
      match cpu.jamBehavior with
      | .reset => { cpu.registers.p with interruptDisable := true }
      | .halt => cpu.registers.p
  /-- A pull sets all flags as in the byte pulled, but for the two that have no flip-flop. -/
  pulled : cpu.jammed = false →
    (cpu.nextOpcode bus).operation = .plp ∨ (cpu.nextOpcode bus).operation = .rti →
    (cpu.step bus).2.1.registers.p.toByte = cpu.pulledByte bus &&& 0xEF ||| 0x20

theorem flagsKept (cpu : Cpu T) (bus : B) : cpu.FlagsKept bus where
  jammed h := p_step_of_jammed h bus
  spared _ := flag_step
  untouched h := Status.eq_of_flag fun flag => flag_step (h ▸ List.not_mem_nil)
  brk hrunning hop := by
    have hkil : (cpu.nextOpcode bus).operation ≠ .kil := hop ▸ Operation.noConfusion
    rw [p_step_of_running hrunning hkil, hop, ← cpu.p_nextOperand bus]
    rfl
  kil := p_step_of_kil
  pulled hrunning hop := by
    have hkil : (cpu.nextOpcode bus).operation ≠ .kil := by
      rcases hop with hop | hop <;> exact hop ▸ Operation.noConfusion
    rw [step_of_implied hrunning (Opcode.mode_of_pulls _ hop) hkil, registers_perform]
    rcases hop with hop | hop
    · rw [hop]
      exact Status.toByte_pulled _
    · rw [hop]
      exact Status.toByte_pulled _

end Cpu

end Famicom
