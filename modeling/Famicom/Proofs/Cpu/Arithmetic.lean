import Famicom.Proofs.Cpu.Flags
import Famicom.Proofs.Cpu.Phantoms
import Famicom.Proofs.Cpu.Resolution
import Famicom.Proofs.Cpu.Writes

/-!
# Exact arithmetic

The operations that add, subtract and compare share one sum of nine bits; what is subtracted is
complemented before. Here their results are sums and differences of numbers: a byte counts from 0 to
255 for the result and the carry, and from -128 to 127 for the overflow. The decimal flag has no
part in it.

* `Registers.Adds`, `Registers.Subtracts`, `Registers.Compares`, `Registers.Reduces`: what becomes
  of the registers.
* `Registers.Adds.subtracts`: to add the complement is to subtract.
* `Cpu.step_withDecimal`: an arithmetic instruction takes no notice of the decimal flag.
* `Cpu.exactArithmetic`: what each of the nine operations leaves in the registers.
-/

namespace Famicom

open SystemBus

/-! ## Bytes as numbers -/

namespace Alu

/-- The numbers that a byte stands for in two's complement. -/
def Fits (n : Int) : Prop := -0x80 ≤ n ∧ n ≤ 0x7F

theorem toNat_complement (m : UInt8) : (0xFF - m).toNat = 0xFF - m.toNat := by
  have hlt := m.toNat_lt
  rw [UInt8.toNat_sub]
  simp only [UInt8.reduceToNat]
  omega

theorem signed_complement : ∀ m : UInt8, signed (0xFF - m) = -1 - signed m :=
  Byte.forall_of_fin (by decide +kernel)

theorem toNat_fst_add (a m : UInt8) (p : Status) :
    (add a m p).1.toNat = (a.toNat + m.toNat + p.carry.toNat) % 0x100 :=
  UInt8.toNat_ofNat'

/-- If the signs of the operands agree, the sum has their sign unless it does not fit; if they
differ, it fits. -/
theorem overflow_add (a m : UInt8) (p : Status) :
    (add a m p).2.overflow = true ↔ ¬ Fits (signed a + signed m + p.carry.toNat) := by
  have ha := a.toNat_lt
  have hm := m.toNat_lt
  have hcarry := p.carry.toNat_le
  have hresult := toNat_fst_add a m p
  have hoverflow : (add a m p).2.overflow = ((decide (a < 0x80) == decide (m < 0x80)) &&
    decide (a < 0x80) != decide ((add a m p).1 < 0x80)) := rfl
  have hpositive (v : UInt8) : v < 0x80 ↔ v.toNat < 0x80 := UInt8.lt_iff_toNat_lt
  rw [hoverflow]
  simp only [Fits, signed, Bool.and_eq_true, beq_iff_eq, bne_iff_ne, ne_eq, decide_eq_decide,
    hpositive]
  split <;> split <;> omega

theorem fst_difference (register m : UInt8) (p : Status) :
    (difference register m p).1 = register - m := by
  have hregister := register.toNat_lt
  have hm := m.toNat_lt
  apply UInt8.toNat_inj.mp
  rw [difference, wrap, UInt8.toNat_ofNat', toNat_complement, UInt8.toNat_sub]
  omega

theorem carry_difference (register m : UInt8) (p : Status) :
    (difference register m p).2.carry = true ↔ m ≤ register := by
  have hm := m.toNat_lt
  rw [difference, wrap, decide_eq_true_iff, toNat_complement, UInt8.le_iff_toNat_le]
  omega

/-- A byte rotated to the right is half of it, with the carry in the place of its top bit. -/
theorem fst_rotateRight (v : UInt8) (p : Status) :
    (rotateRight v p).1 = UInt8.ofNat (v.toNat / 2 + 0x80 * p.carry.toNat) := by
  have hrotated : ∀ c : Bool, ∀ v : UInt8,
      v / 2 + 0x80 * c.toUInt8 = UInt8.ofNat (v.toNat / 2 + 0x80 * c.toNat) := by
    intro c
    cases c <;> exact Byte.forall_of_fin (by decide +kernel)
  exact hrotated p.carry v

end Alu

/-- Bit 7 of a byte is its sign. -/
theorem Byte.bit_seven : ∀ v : UInt8, bit v 7 = decide (0x80 ≤ v) :=
  forall_of_fin (by decide +kernel)

/-! ## Registers after an operation -/

/-- Zero and negative describe a result. -/
structure Status.Describes (p : Status) (result : UInt8) : Prop where
  zero : p.zero = true ↔ result = 0
  negative : p.negative = Byte.bit result 7

/-- Two status registers agree but for what a result and its carry set. -/
def Status.AgreesInRest (p later : Status) : Prop :=
  later = { p with carry := later.carry, zero := later.zero, negative := later.negative }

theorem Status.AgreesInRest.refl (p : Status) : p.AgreesInRest p := rfl

theorem Status.AgreesInRest.trans {p later last : Status} (h : p.AgreesInRest later)
    (h' : later.AgreesInRest last) : p.AgreesInRest last := by
  refine Eq.trans h' ?_
  rw [h]

theorem Alu.agreesInRest_wrap (raw : Nat) (p : Status) : p.AgreesInRest (wrap raw p).2 := rfl

theorem Alu.describes_wrap (raw : Nat) (p : Status) :
    (wrap raw p).2.Describes (wrap raw p).1 where
  zero := beq_iff_eq
  negative := (Byte.bit_seven _).symm

theorem Alu.describes_add (a m : UInt8) (p : Status) :
    (add a m p).2.Describes (add a m p).1 where
  zero := (describes_wrap (a.toNat + m.toNat + p.carry.toNat) p).zero
  negative := (describes_wrap (a.toNat + m.toNat + p.carry.toNat) p).negative

namespace Registers

open Alu

/-- The accumulator takes a sum, and no other register changes. -/
structure Adds (m : UInt8) (carryIn : Bool) (r later : Registers) : Prop where
  sum : later.a.toNat = (r.a.toNat + m.toNat + carryIn.toNat) % 0x100
  carry : later.p.carry = true ↔ 0xFF < r.a.toNat + m.toNat + carryIn.toNat
  overflow : later.p.overflow = true ↔ ¬ Fits (signed r.a + signed m + carryIn.toNat)
  describes : later.p.Describes later.a
  kept : later =
    { r with
      a := later.a
      p :=
        { r.p with
          carry := later.p.carry, zero := later.p.zero, overflow := later.p.overflow,
          negative := later.p.negative } }

/-- The accumulator takes a difference, less the borrow that the absence of carry stands for; no
other register changes. -/
structure Subtracts (m : UInt8) (carryIn : Bool) (r later : Registers) : Prop where
  difference : (later.a.toNat : Int) = (r.a.toNat - m.toNat - (1 - carryIn.toNat)) % 0x100
  /-- Carry means that there is no borrow. -/
  carry : later.p.carry = true ↔ 0 ≤ (r.a.toNat - m.toNat - (1 - carryIn.toNat) : Int)
  overflow : later.p.overflow = true ↔ ¬ Fits (signed r.a - signed m - (1 - carryIn.toNat))
  describes : later.p.Describes later.a
  kept : later =
    { r with
      a := later.a
      p :=
        { r.p with
          carry := later.p.carry, zero := later.p.zero, overflow := later.p.overflow,
          negative := later.p.negative } }

/-- The flags compare a value with an operand; all registers are kept, and so is the overflow
flag. -/
structure Compares (value m : UInt8) (r later : Registers) : Prop where
  carry : later.p.carry = true ↔ m ≤ value
  zero : later.p.zero = true ↔ value = m
  negative : later.p.negative = Byte.bit (value - m) 7
  kept : later =
    { r with
      p :=
        { r.p with
          carry := later.p.carry, zero := later.p.zero, negative := later.p.negative } }

/-- The X register takes what is left of the bits that it shares with the accumulator. -/
structure Reduces (m : UInt8) (r later : Registers) : Prop where
  difference : (later.x.toNat : Int) = ((r.a &&& r.x).toNat - m.toNat) % 0x100
  carry : later.p.carry = true ↔ m ≤ r.a &&& r.x
  describes : later.p.Describes later.x
  kept : later =
    { r with
      x := later.x
      p :=
        { r.p with
          carry := later.p.carry, zero := later.p.zero, negative := later.p.negative } }

variable {r later : Registers} {m : UInt8} {p : Status}

theorem adds_add (hp : r.p.AgreesInRest p)
    (h : later = { r with a := (add r.a m p).1, p := (add r.a m p).2 }) :
    r.Adds m p.carry later := by
  subst h
  exact
    { sum := toNat_fst_add r.a m p
      carry := decide_eq_true_iff
      overflow := overflow_add r.a m p
      describes := describes_add r.a m p
      kept := by
        rw [hp]
        rfl }

/-- To add the complement is to subtract: it lacks one of 256, and the carry makes up for it. -/
theorem Adds.subtracts {carry : Bool} (h : r.Adds (0xFF - m) carry later) :
    r.Subtracts m carry later := by
  have ha := r.a.toNat_lt
  have hm := m.toNat_lt
  have hsum := h.sum
  have hcarry := h.carry
  have hoverflow := h.overflow
  have hsigned : signed r.a + signed (0xFF - m) + carry.toNat =
      signed r.a - signed m - (1 - carry.toNat) := by
    rw [signed_complement]
    omega
  rw [toNat_complement] at hsum hcarry
  rw [hsigned] at hoverflow
  exact
    { difference := by omega
      carry := by
        rw [hcarry]
        omega
      overflow := hoverflow
      describes := h.describes
      kept := h.kept }

theorem compares_compare {value : UInt8} (hp : r.p.AgreesInRest p)
    (h : later = { r with p := compare value m p }) : r.Compares value m later := by
  have hdescribes : (compare value m p).Describes (difference value m p).1 :=
    describes_wrap _ p
  subst h
  exact
    { carry := carry_difference value m p
      zero := by
        rw [hdescribes.zero, fst_difference]
        grind
      negative := by rw [hdescribes.negative, fst_difference]
      kept := congrArg (fun p => { r with p }) (hp.trans (agreesInRest_wrap _ p)) }

theorem reduces_difference
    (h : later =
      { r with
        x := (difference (r.a &&& r.x) m r.p).1, p := (difference (r.a &&& r.x) m r.p).2 }) :
    r.Reduces m later := by
  subst h
  exact
    { difference := by
        have hm := m.toNat_lt
        rw [fst_difference, UInt8.toNat_sub]
        omega
      carry := carry_difference _ m r.p
      describes := describes_wrap _ r.p
      kept := congrArg (fun p => { r with x := (difference (r.a &&& r.x) m r.p).1, p })
        (agreesInRest_wrap _ r.p) }

end Registers

/-! ## Instructions -/

/-- The operations that add, subtract or compare. -/
def Operation.arithmetic : List Operation := [.adc, .sbc, .cmp, .cpx, .cpy, .axs, .rra, .dcp, .isc]

/-- The operations that modify a byte and let the accumulator take part in it. -/
def Operation.combinations : List Operation := [.slo, .rla, .sre, .rra, .dcp, .isc]

/-- Unlike a modification alone, a combination has no form for the accumulator. -/
theorem Opcode.mode_of_combination (code : UInt8) :
    (ofByte code).operation ∈ Operation.combinations →
      (ofByte code).mode ∉ AddressingMode.withoutAddress := by
  refine forall_of_table (P := fun opcode =>
    opcode.operation ∈ Operation.combinations →
      opcode.mode ∉ AddressingMode.withoutAddress) ?_ code
  decide +kernel

namespace Cpu

variable {T B : Type} [SystemBus B] {cpu : Cpu T} {bus : B} {operation : Operation}

/-- The next instruction performs an operation. -/
def Performs (cpu : Cpu T) (bus : B) (operation : Operation) : Prop :=
  cpu.jammed = false ∧ (cpu.nextOpcode bus).operation = operation

/-- The byte that the operand of the next instruction stands for. -/
def operandByte (cpu : Cpu T) (bus : B) : UInt8 :=
  ((cpu.nextOperand bus).1.load (cpu.nextOperand bus).2.2).1

/-- The registers behind the next instruction, before its operation. -/
def behind (cpu : Cpu T) (bus : B) : Registers :=
  { cpu.registers with pc := cpu.registers.pc + UInt16.ofNat (cpu.nextOpcode bus).bytes }

theorem registers_nextOperand (cpu : Cpu T) (bus : B) :
    (cpu.nextOperand bus).2.1 = cpu.behind bus :=
  Opcode.resolve_registers _ _ _

theorem registers_step (h : cpu.Performs bus operation) (hkil : operation ≠ .kil) :
    (cpu.step bus).2.1.registers =
      (operation.effect.run (cpu.nextOperand bus).1 (cpu.behind bus)
        (cpu.nextOperand bus).2.2).1 := by
  obtain ⟨hrunning, rfl⟩ := h
  rw [step_of_running hrunning hkil, registers_perform, registers_nextOperand]

theorem registers_step_of_load {f : Registers → UInt8 → Registers}
    (h : cpu.Performs bus operation) (heffect : operation.effect = .load f) :
    (cpu.step bus).2.1.registers = f (cpu.behind bus) (cpu.operandByte bus) := by
  have hkil : operation ≠ .kil := by
    rintro rfl
    exact Effect.noConfusion heffect
  rw [registers_step h hkil, heffect]
  rfl

theorem registers_step_of_modify {f : UInt8 → Status → UInt8 × Status}
    {absorb : Registers → UInt8 → Registers} (h : cpu.Performs bus operation)
    (hoperation : operation ∈ Operation.combinations)
    (heffect : operation.effect = .modify f absorb) :
    (cpu.step bus).2.1.registers =
      absorb { cpu.behind bus with p := (f (cpu.operandByte bus) cpu.registers.p).2 }
        (f (cpu.operandByte bus) cpu.registers.p).1 := by
  have hkil : operation ≠ .kil := by
    rintro rfl
    exact Effect.noConfusion heffect
  have hmode := Opcode.mode_of_combination (read bus cpu.registers.pc).1 (h.2 ▸ hoperation)
  obtain ⟨address, crossed, hoperand⟩ := AddressingMode.exists_address hmode
    { cpu.registers with pc := cpu.registers.pc + 1 } (read bus cpu.registers.pc).2
  have hsame : (cpu.nextOperand bus).1 = .memory address crossed := hoperand
  rw [registers_step h hkil, heffect, operandByte, hsame]
  rfl

end Cpu

/-! ## The decimal flag -/

/-- A status register with the decimal flag replaced. -/
def Status.withDecimal (p : Status) (decimal : Bool) : Status := { p with decimal }

namespace Alu

variable (a m : UInt8) (p : Status) (decimal : Bool)

theorem wrap_withDecimal (raw : Nat) :
    wrap raw (p.withDecimal decimal) = ((wrap raw p).1, (wrap raw p).2.withDecimal decimal) := rfl

theorem add_withDecimal :
    add a m (p.withDecimal decimal) = ((add a m p).1, (add a m p).2.withDecimal decimal) := by
  unfold add
  rfl

theorem subtract_withDecimal :
    subtract a m (p.withDecimal decimal) =
      ((subtract a m p).1, (subtract a m p).2.withDecimal decimal) :=
  add_withDecimal a _ p decimal

theorem difference_withDecimal :
    difference a m (p.withDecimal decimal) =
      ((difference a m p).1, (difference a m p).2.withDecimal decimal) :=
  wrap_withDecimal p decimal _

theorem compare_withDecimal :
    compare a m (p.withDecimal decimal) = (compare a m p).withDecimal decimal :=
  congrArg Prod.snd (difference_withDecimal a m p decimal)

theorem increment_withDecimal :
    increment m (p.withDecimal decimal) =
      ((increment m p).1, (increment m p).2.withDecimal decimal) := rfl

theorem decrement_withDecimal :
    decrement m (p.withDecimal decimal) =
      ((decrement m p).1, (decrement m p).2.withDecimal decimal) := rfl

theorem rotateRight_withDecimal :
    rotateRight m (p.withDecimal decimal) =
      ((rotateRight m p).1, (rotateRight m p).2.withDecimal decimal) := rfl

end Alu

/-- No operation that adds, subtracts or compares takes notice of the flag. -/
theorem Operation.run_withDecimal {B : Type} [SystemBus B] {operation : Operation}
    (h : operation ∈ arithmetic) (operand : Operand) (r : Registers) (bus : B) (decimal : Bool) :
    operation.effect.run operand (r.mapStatus (·.withDecimal decimal)) bus =
      ((operation.effect.run operand r bus).1.mapStatus (·.withDecimal decimal),
        (operation.effect.run operand r bus).2) := by
  cases operation with
  | adc | sbc | cmp | cpx | cpy | axs =>
    simp only [effect, Effect.run, Registers.mapStatus, Alu.add_withDecimal,
      Alu.subtract_withDecimal, Alu.compare_withDecimal, Alu.difference_withDecimal]
  | rra | dcp | isc =>
    cases operand <;>
      simp only [effect, Effect.run, Registers.mapStatus, Alu.add_withDecimal,
        Alu.subtract_withDecimal, Alu.compare_withDecimal, Alu.increment_withDecimal,
        Alu.decrement_withDecimal, Alu.rotateRight_withDecimal]
  | _ => exact absurd h (by decide)

theorem Opcode.cost_withDecimal (opcode : Opcode) (operand : Operand) (p : Status)
    (decimal : Bool) : opcode.cost operand (p.withDecimal decimal) = opcode.cost operand p := by
  have hextra : opcode.operation.effect.extraCycles operand (p.withDecimal decimal) =
      opcode.operation.effect.extraCycles operand p := by
    cases opcode.operation <;> rfl
  unfold cost
  rw [hextra]

namespace Cpu

variable {T B : Type} [SystemBus B]

/-- A processor with the decimal flag replaced. -/
def withDecimal (cpu : Cpu T) (decimal : Bool) : Cpu T := cpu.mapStatus (·.withDecimal decimal)

/-- An arithmetic instruction takes no notice of the decimal flag, and passes it on. -/
theorem step_withDecimal (cpu : Cpu T) (bus : B) (decimal : Bool)
    (h : (cpu.nextOpcode bus).operation ∈ Operation.arithmetic) :
    (cpu.withDecimal decimal).step bus =
      ((cpu.step bus).1, (cpu.step bus).2.1.withDecimal decimal, (cpu.step bus).2.2) := by
  cases hjammed : cpu.jammed with
  | true =>
    have hjammed' : (cpu.withDecimal decimal).jammed = true := hjammed
    rw [step_of_jammed hjammed, step_of_jammed hjammed']
    rfl
  | false =>
    have hkil : (cpu.nextOpcode bus).operation ≠ .kil := by
      intro hkil
      rw [hkil] at h
      exact absurd h (by decide)
    have hjammed' : (cpu.withDecimal decimal).jammed = false := hjammed
    have hoperand : (cpu.withDecimal decimal).nextOperand bus = _ :=
      Registers.resolve_mapStatus (·.withDecimal decimal)
        { cpu.registers with pc := cpu.registers.pc + 1 } (read bus cpu.registers.pc).2
        (cpu.nextOpcode bus).mode
    have hrun := Operation.run_withDecimal h (cpu.nextOperand bus).1 (cpu.nextOperand bus).2.1
      (cpu.nextOperand bus).2.2 decimal
    rw [step_of_running hjammed hkil, step_of_running hjammed' hkil, hoperand]
    exact perform_mapStatus (·.withDecimal decimal) (·.withDecimal decimal)
      { cpu with registers := (cpu.nextOperand bus).2.1 }
      (Opcode.cost_withDecimal _ _ _ decimal) hrun

end Cpu

/-! ## The operations -/

namespace Cpu

variable {T B : Type} [SystemBus B]

/-- What the operations that add, subtract or compare make of the registers behind them, whatever
the processor, the bus and the operand. -/
structure ExactArithmetic (cpu : Cpu T) (bus : B) : Prop where
  adc : cpu.Performs bus .adc →
    (cpu.behind bus).Adds (cpu.operandByte bus) cpu.registers.p.carry (cpu.step bus).2.1.registers
  /-- The byte that is added has been rotated, and the carry is what the rotation has left. -/
  rra : cpu.Performs bus .rra →
    (cpu.behind bus).Adds
      (.ofNat ((cpu.operandByte bus).toNat / 2 + 0x80 * cpu.registers.p.carry.toNat))
      (Byte.bit (cpu.operandByte bus) 0) (cpu.step bus).2.1.registers
  sbc : cpu.Performs bus .sbc →
    (cpu.behind bus).Subtracts (cpu.operandByte bus) cpu.registers.p.carry
      (cpu.step bus).2.1.registers
  /-- An opcode that is not documented does the same. -/
  twin : (read bus cpu.registers.pc).1 = 0xEB → (cpu.nextOpcode bus).operation = .sbc
  /-- The byte that is subtracted has been incremented. -/
  isc : cpu.Performs bus .isc →
    (cpu.behind bus).Subtracts (cpu.operandByte bus + 1) cpu.registers.p.carry
      (cpu.step bus).2.1.registers
  cmp : cpu.Performs bus .cmp →
    (cpu.behind bus).Compares cpu.registers.a (cpu.operandByte bus) (cpu.step bus).2.1.registers
  cpx : cpu.Performs bus .cpx →
    (cpu.behind bus).Compares cpu.registers.x (cpu.operandByte bus) (cpu.step bus).2.1.registers
  cpy : cpu.Performs bus .cpy →
    (cpu.behind bus).Compares cpu.registers.y (cpu.operandByte bus) (cpu.step bus).2.1.registers
  /-- The byte that is compared has been decremented. -/
  dcp : cpu.Performs bus .dcp →
    (cpu.behind bus).Compares cpu.registers.a (cpu.operandByte bus - 1)
      (cpu.step bus).2.1.registers
  axs : cpu.Performs bus .axs →
    (cpu.behind bus).Reduces (cpu.operandByte bus) (cpu.step bus).2.1.registers
  /-- The decimal flag changes nothing but itself. -/
  decimal : (cpu.nextOpcode bus).operation ∈ Operation.arithmetic → ∀ decimal,
    (cpu.withDecimal decimal).step bus =
      ((cpu.step bus).1, (cpu.step bus).2.1.withDecimal decimal, (cpu.step bus).2.2)

/-- Sums, differences and comparisons are exact. -/
theorem exactArithmetic (cpu : Cpu T) (bus : B) : cpu.ExactArithmetic bus where
  adc h := Registers.adds_add (.refl _) (registers_step_of_load h rfl)
  rra h := by
    rw [← Alu.fst_rotateRight]
    exact Registers.adds_add (p := (Alu.rotateRight (cpu.operandByte bus) cpu.registers.p).2) rfl
      (registers_step_of_modify h (by decide) rfl)
  sbc h := (Registers.adds_add (.refl _) (registers_step_of_load h rfl)).subtracts
  twin h := by
    rw [nextOpcode, h]
    rfl
  isc h := by
    have hadds : (cpu.behind bus).Adds (0xFF - (cpu.operandByte bus + 1))
        (Alu.increment (cpu.operandByte bus) cpu.registers.p).2.carry _ :=
      Registers.adds_add rfl (registers_step_of_modify h (by decide) rfl)
    exact hadds.subtracts
  cmp h := Registers.compares_compare (.refl _) (registers_step_of_load h rfl)
  cpx h := Registers.compares_compare (.refl _) (registers_step_of_load h rfl)
  cpy h := Registers.compares_compare (.refl _) (registers_step_of_load h rfl)
  dcp h := Registers.compares_compare
    (p := (Alu.decrement (cpu.operandByte bus) cpu.registers.p).2) rfl
    (registers_step_of_modify h (by decide) rfl)
  axs h := Registers.reduces_difference (registers_step_of_load h rfl)
  decimal h decimal := cpu.step_withDecimal bus decimal h

end Cpu

end Famicom
