import Famicom.Proofs.Cpu.Metered
import Famicom.Proofs.Cpu.Pushes
import Famicom.Proofs.Cpu.Rounds

/-!
# How long an instruction takes

The table gives the cycles of an opcode. Indexing that reaches another page, a branch that is taken
and a transfer to sprite memory add to them. An instruction returns the sum, and it is the same sum
that both counters and the sound unit are told of, wherever the instruction leaves the processor.

* `AddressingMode.leavesPage`, `Registers.branchLeavesPage`: when another page is reached.
* `Opcode.cost_eq`: the table and what is added to it.
* `Cpu.ownCycles`, `Cpu.stallCycles`: the cycles of an instruction and of a transfer after it.
* `Cpu.accounted`: the count of an instruction, and that nothing disagrees with it.
-/

namespace Famicom

open SystemBus

variable {T B : Type} [SystemBus B]

/-! ## Pages -/

/-- The address that a mode indexes and the index that it adds; the operand lies at the program
counter. -/
def AddressingMode.indexing? (mode : AddressingMode) (r : Registers) (bus : B) :
    Option (UInt16 × UInt8) :=
  match mode with
  | absoluteX => some ((r.fetchWord bus).1, r.x)
  | absoluteY => some ((r.fetchWord bus).1, r.y)
  | indirectIndexed =>
    let (pointer, _, bus) := r.fetchByte bus
    some ((readPointer bus pointer.toUInt16).1, r.y)
  | _ => none

/-- Whether indexing changes the high byte of the address. -/
def AddressingMode.leavesPage (mode : AddressingMode) (r : Registers) (bus : B) : Bool :=
  (mode.indexing? r bus).any fun (base, index) =>
    Word.high base != Word.high (base + index.toUInt16)

/-- Where a branch leads: its operand is a distance from the next instruction, in two's
complement. -/
def Registers.branchTarget (r : Registers) (bus : B) : UInt16 :=
  .ofInt ((r.pc + 1).toNat + Alu.signed (read bus r.pc).1)

/-- Whether a branch leads to another page than that of the next instruction. -/
def Registers.branchLeavesPage (r : Registers) (bus : B) : Bool :=
  Word.high (r.pc + 1) != Word.high (r.branchTarget bus)

theorem AddressingMode.p_resolve (mode : AddressingMode) (r : Registers) (bus : B) :
    (mode.resolve r bus).2.1.p = r.p := by
  cases mode <;> rfl

/-- Apart from branches, an operand lies on another page exactly if indexing has led there. -/
theorem AddressingMode.crossed_resolve {mode : AddressingMode} (h : mode ≠ relative)
    (r : Registers) (bus : B) : (mode.resolve r bus).1.crossed = mode.leavesPage r bus := by
  cases mode with
  | relative => exact absurd rfl h
  | _ => rfl

/-- A byte in two's complement, taken to a word. -/
theorem Alu.ofInt_signed : ∀ offset : UInt8, UInt16.ofInt (signed offset) =
    if offset < 0x80 then offset.toUInt16 else offset.toUInt16 + 0xFF00 :=
  Byte.forall_of_fin (by decide +kernel)

theorem Word.ofInt_toNat (word : UInt16) : UInt16.ofInt word.toNat = word := by
  have hlt := word.toNat_lt
  have hsame : ((word.toNat : Int) % 2 ^ 16).toNat = word.toNat := by omega
  rw [UInt16.ofInt, hsame, UInt16.ofNat_toNat]

theorem AddressingMode.resolve_relative (r : Registers) (bus : B) :
    (relative.resolve r bus).1 = .memory (r.branchTarget bus) (r.branchLeavesPage bus) := by
  have htarget : r.branchTarget bus = r.pc + 1 +
      (if (read bus r.pc).1 < 0x80 then (read bus r.pc).1.toUInt16
        else (read bus r.pc).1.toUInt16 + 0xFF00) := by
    rw [Registers.branchTarget, UInt16.ofInt_add, Word.ofInt_toNat, Alu.ofInt_signed]
  unfold Registers.branchLeavesPage
  rw [htarget]
  rfl

/-! ## The table -/

/-- The condition of a branch. -/
def Operation.condition? (operation : Operation) : Option (Status → Bool) :=
  match operation.effect with
  | .branch taken => some taken
  | _ => none

theorem Operation.extraCycles_eq (operation : Operation) (operand : Operand) (p : Status) :
    operation.effect.extraCycles operand p =
      match operation.condition? with
      | some taken => if taken p then 1 + (if operand.crossed then 1 else 0) else 0
      | none => 0 := by
  unfold condition? Effect.extraCycles
  cases operation.effect with
  | branch taken => cases taken p <;> cases operand.crossed <;> rfl
  | _ => rfl

namespace Opcode

/-- The cycles that an opcode takes beyond those of the table; its operand lies at the program
counter. -/
def surcharge (opcode : Opcode) (r : Registers) (bus : B) : Nat :=
  (match opcode.operation.condition? with
    | some taken => if taken r.p then 1 + (if r.branchLeavesPage bus then 1 else 0) else 0
    | none => 0) +
    (if opcode.paged && opcode.mode.leavesPage r bus then 1 else 0)

/-- Branches have the only operand that is relative to them. -/
theorem relative_of_condition (code : UInt8) :
    (ofByte code).operation.condition?.isSome → (ofByte code).mode = .relative := by
  refine forall_of_table (P := fun opcode =>
    opcode.operation.condition?.isSome → opcode.mode = .relative) ?_ code
  decide +kernel

/-- No branch has the surcharge of indexing. -/
theorem not_relative_of_paged (code : UInt8) :
    (ofByte code).paged = true → (ofByte code).mode ≠ .relative := by
  refine forall_of_table (P := fun opcode => opcode.paged = true → opcode.mode ≠ .relative) ?_ code
  decide +kernel

/-- The cost of an opcode is that of the table and its surcharge. -/
theorem cost_eq (code : UInt8) (r : Registers) (bus : B) :
    (ofByte code).cost ((ofByte code).mode.resolve r bus).1 ((ofByte code).mode.resolve r bus).2.1.p
      = (ofByte code).cycles + (ofByte code).surcharge r bus := by
  have hbranch := relative_of_condition code
  have hpaged := not_relative_of_paged code
  generalize ofByte code = opcode at hbranch hpaged
  -- For a branch `crossed` is about its target, for any other opcode about indexing; since no
  -- branch is paged, each of the two costs one of its own cycles only.
  have hindexing : (opcode.paged && (opcode.mode.resolve r bus).1.crossed) =
      (opcode.paged && opcode.mode.leavesPage r bus) := by
    cases hflag : opcode.paged with
    | false => rfl
    | true => rw [AddressingMode.crossed_resolve (hpaged hflag)]
  unfold cost surcharge
  rw [Operation.extraCycles_eq, AddressingMode.p_resolve, hindexing, ← Nat.add_assoc]
  cases hcondition : opcode.operation.condition? with
  | none => rfl
  | some taken =>
    have hrelative : opcode.mode = .relative := hbranch (by rw [hcondition]; rfl)
    rw [hrelative, AddressingMode.resolve_relative]
    rfl

end Opcode

/-! ## An instruction -/

namespace Cpu

/-- The cycles of the next instruction, before any transfer. -/
def ownCycles (cpu : Cpu T) (bus : B) : Nat :=
  (cpu.nextOpcode bus).cycles +
    (cpu.nextOpcode bus).surcharge { cpu.registers with pc := cpu.registers.pc + 1 }
      (read bus cpu.registers.pc).2

/-- The bus once the operation of the next instruction has been performed. -/
def operated (cpu : Cpu T) (bus : B) : B :=
  ((cpu.nextOpcode bus).operation.effect.run (cpu.nextOperand bus).1 (cpu.nextOperand bus).2.1
    (cpu.nextOperand bus).2.2).2

section

variable {C A D : Type} [Cartridge C] [Apu A] [Controller D]

/-- The cycles of the transfer after the next instruction, if a page is pending then. It begins on
an even cycle, and waits for one if need be. -/
def stallCycles (cpu : Cpu T) (bus : Bus C A D) : Nat :=
  if (cpu.operated bus).dmaPage.isSome then
    if (cpu.totalCycles + cpu.ownCycles bus) % 2 = 0 then 513 else 514
  else 0

theorem serveTransfer_fst (cpu : Cpu T) (bus : Bus C A D) :
    (cpu.serveTransfer bus).1 =
      if bus.dmaPage.isSome then if cpu.totalCycles % 2 = 0 then 513 else 514 else 0 := by
  have htaken : takeDmaRequest bus = (bus.dmaPage, { bus with dmaPage := none }) := rfl
  unfold serveTransfer
  rw [htaken]
  cases bus.dmaPage with
  | none => rfl
  | some page =>
    show transferCycles cpu.totalCycles = if cpu.totalCycles % 2 = 0 then 513 else 514
    unfold transferCycles
    split <;> split <;> omega

theorem step_fst_of_jammed {cpu : Cpu T} {bus : B} (h : cpu.jammed = true) :
    (cpu.step bus).1 = 2 := by
  rw [step_of_jammed h]
  rfl

theorem step_fst_of_kil {cpu : Cpu T} {bus : B} (hrunning : cpu.jammed = false)
    (hkil : (cpu.nextOpcode bus).operation = .kil) :
    (cpu.step bus).1 =
      match cpu.jamBehavior with
      | .reset => 7
      | .halt => 2 := by
  rw [step_of_kil hrunning hkil]
  unfold jam
  dsimp only
  cases cpu.jamBehavior <;> rfl

theorem step_fst_of_running {cpu : Cpu T} {bus : Bus C A D} (hrunning : cpu.jammed = false)
    (hkil : (cpu.nextOpcode bus).operation ≠ .kil) :
    (cpu.step bus).1 = cpu.ownCycles bus + cpu.stallCycles bus := by
  have hcost : (cpu.nextOpcode bus).cost (cpu.nextOperand bus).1 (cpu.nextOperand bus).2.1.p =
      cpu.ownCycles bus :=
    Opcode.cost_eq _ _ _
  rw [step_of_running hrunning hkil]
  unfold perform elapse stallCycles operated
  dsimp only
  rw [hcost, serveTransfer_fst]
  rfl

/-- The count that an instruction returns, and that nothing disagrees with it. -/
structure Accounted (cpu : Cpu T) (bus : Bus C A D) : Prop where
  /-- Both counters show it. -/
  cycle : (cpu.step bus).2.1.cycle = cpu.cycle + (cpu.step bus).1
  totalCycles : (cpu.step bus).2.1.totalCycles = cpu.totalCycles + (cpu.step bus).1
  /-- So does a meter in front of the sound unit, which changes nothing else. -/
  clocked : (cpu.step bus.metered).2.2.apu.total = (cpu.step bus).1
  unmetered : cpu.step bus =
    ((cpu.step bus.metered).1, (cpu.step bus.metered).2.1, (cpu.step bus.metered).2.2.unmetered)
  /-- A halted processor spends two cycles. -/
  jammed : cpu.jammed = true → (cpu.step bus).1 = 2
  /-- The opcode that stops the sequencer takes the reset sequence's seven cycles, or two. -/
  kil : cpu.jammed = false → (cpu.nextOpcode bus).operation = .kil →
    (cpu.step bus).1 =
      match cpu.jamBehavior with
      | .reset => 7
      | .halt => 2
  /-- Every other opcode takes its own cycles and those of the transfer after it. -/
  other : cpu.jammed = false → (cpu.nextOpcode bus).operation ≠ .kil →
    (cpu.step bus).1 = cpu.ownCycles bus + cpu.stallCycles bus
  /-- An instruction takes time, and not more than the longest one with a transfer. -/
  two_le : 2 ≤ (cpu.step bus).1
  le_most : (cpu.step bus).1 ≤ 522

theorem accounted (cpu : Cpu T) (bus : Bus C A D) : cpu.Accounted bus := by
  obtain ⟨⟨hcycle, htotal⟩, htwo⟩ := counts_step cpu bus
  obtain ⟨cycles, -, hmost, helapsed⟩ := elapsed_step cpu bus
  have hunmetered := Bus.busMap_unmetered.step cpu bus.metered
  have hclocked := Bus.clocked_total.step cpu bus.metered
  exact
    { cycle := hcycle
      totalCycles := htotal
      clocked := by
        have hcount : (cpu.step bus).1 = (cpu.step bus.metered).1 := congrArg Prod.fst hunmetered
        rw [hcount, hclocked]
        exact Nat.zero_add _
      unmetered := hunmetered
      jammed := step_fst_of_jammed
      kil := step_fst_of_kil
      other := step_fst_of_running
      two_le := htwo
      le_most := by
        have hsame := helapsed.cycle
        omega }

end

end Cpu

end Famicom
