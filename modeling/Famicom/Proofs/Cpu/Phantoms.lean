import Famicom.Proofs.Cpu.Access

/-!
# The bits without a flip-flop

Bits 4 and 5 of the status have a meaning in the copies that are pushed only. The register has room
for them all the same, and power-on sets both. This is of no consequence: whatever the two bits are,
the processor does the same. An instruction keeps them or, if it pulls the status, gives them the
values that every pull leaves; which of the two happens does not depend on them either.

* `Cpu.perform_mapStatus`: a change of flags that neither the cost nor the effect of an opcode takes
  notice of.
* `Operation.effect_blind`: no operation takes notice of the bits.
* `Cpu.step_withPhantoms`, `Cpu.nmi_withPhantoms`: nor do instructions and interrupts.
* `Cpu.runTo_withPhantoms`: nor does a run.
-/

namespace Famicom

open SystemBus

/-! ## Changed flags

Whatever has been done to the flags, an operand is found at the same place, and after an effect the
rest of an instruction is the same. -/

section

variable {T B : Type} [SystemBus B] (change later : Status → Status)

/-- Registers with their flags changed. -/
def Registers.mapStatus (r : Registers) (change : Status → Status) : Registers :=
  { r with p := change r.p }

/-- A processor with its flags changed. -/
def Cpu.mapStatus (cpu : Cpu T) (change : Status → Status) : Cpu T :=
  { cpu with registers := cpu.registers.mapStatus change }

theorem Registers.resolve_mapStatus (r : Registers) (bus : B) (mode : AddressingMode) :
    mode.resolve (r.mapStatus change) bus =
      ((mode.resolve r bus).1, (mode.resolve r bus).2.1.mapStatus change,
        (mode.resolve r bus).2.2) := by
  cases mode <;> rfl

theorem Cpu.serveTransfer_mapStatus (cpu : Cpu T) (bus : B) :
    (cpu.mapStatus change).serveTransfer bus =
      ((cpu.serveTransfer bus).1, (cpu.serveTransfer bus).2.1.mapStatus change,
        (cpu.serveTransfer bus).2.2) := by
  unfold serveTransfer
  dsimp only
  split <;> rfl

/-- The cost and the effect of an opcode decide on what becomes of the flags in all. -/
theorem Cpu.perform_mapStatus (cpu : Cpu T) {bus : B} {opcode : Opcode} {operand : Operand}
    (hcost : opcode.cost operand (change cpu.registers.p) = opcode.cost operand cpu.registers.p)
    (hrun : opcode.operation.effect.run operand (cpu.registers.mapStatus change) bus =
      ((opcode.operation.effect.run operand cpu.registers bus).1.mapStatus later,
        (opcode.operation.effect.run operand cpu.registers bus).2)) :
    (cpu.mapStatus change).perform bus opcode operand =
      ((cpu.perform bus opcode operand).1, (cpu.perform bus opcode operand).2.1.mapStatus later,
        (cpu.perform bus opcode operand).2.2) := by
  have hcost' : opcode.cost operand (cpu.mapStatus change).registers.p = _ := hcost
  have hrun' : opcode.operation.effect.run operand (cpu.mapStatus change).registers bus = _ := hrun
  unfold perform
  rw [hcost', hrun']
  rcases opcode.operation.effect.run operand cpu.registers bus with ⟨registers, bus⟩
  have hserve := serveTransfer_mapStatus later
    ({ cpu with registers }.elapse bus (opcode.cost operand cpu.registers.p)).1
    ({ cpu with registers }.elapse bus (opcode.cost operand cpu.registers.p)).2
  exact congrArg
    (fun (stall, later) => (opcode.cost operand cpu.registers.p + stall, later)) hserve

end

/-! ## The two bits -/

/-- The two bits of the status register that have no flip-flop. -/
structure Phantoms where
  breakFlag : Bool
  unused : Bool
  deriving DecidableEq, Repr

namespace Phantoms

/-- What becomes of the two bits. -/
inductive Fate where
  /-- They stay what they are. -/
  | kept
  /-- They take the values that a pull leaves. -/
  | pulled
  deriving DecidableEq, Repr

namespace Fate

/-- The two bits afterwards. -/
def apply : Fate → Phantoms → Phantoms
  | kept, φ => φ
  | pulled, _ => ⟨false, true⟩

/-- One fate after the other. -/
def andThen : Fate → Fate → Fate
  | first, kept => first
  | _, pulled => pulled

@[simp] theorem apply_andThen (first later : Fate) (φ : Phantoms) :
    (first.andThen later).apply φ = later.apply (first.apply φ) := by
  cases later <;> rfl

end Fate

end Phantoms

open Phantoms

/-! ## Registers -/

/-- The two bits of a status register. -/
def Status.phantoms (p : Status) : Phantoms := ⟨p.breakFlag, p.unused⟩

/-- A status register with the two bits replaced. -/
def Status.withPhantoms (p : Status) (φ : Phantoms) : Status :=
  { p with breakFlag := φ.breakFlag, unused := φ.unused }

namespace Registers

/-- Registers with the two bits replaced. -/
def withPhantoms (r : Registers) (φ : Phantoms) : Registers := { r with p := r.p.withPhantoms φ }

variable {B : Type} [SystemBus B] (r : Registers) (bus : B) (φ : Phantoms)

theorem fetchByte_withPhantoms :
    (r.withPhantoms φ).fetchByte bus =
      ((r.fetchByte bus).1, (r.fetchByte bus).2.1.withPhantoms φ, (r.fetchByte bus).2.2) := rfl

theorem resolve_withPhantoms (mode : AddressingMode) :
    mode.resolve (r.withPhantoms φ) bus =
      ((mode.resolve r bus).1, (mode.resolve r bus).2.1.withPhantoms φ,
        (mode.resolve r bus).2.2) :=
  resolve_mapStatus (·.withPhantoms φ) r bus mode

end Registers

/-! ## Arithmetic -/

namespace Alu

variable (a m : UInt8) (p : Status) (φ : Phantoms)

theorem wrap_withPhantoms (raw : Nat) :
    wrap raw (p.withPhantoms φ) = ((wrap raw p).1, (wrap raw p).2.withPhantoms φ) := rfl

theorem add_withPhantoms :
    add a m (p.withPhantoms φ) = ((add a m p).1, (add a m p).2.withPhantoms φ) := by
  unfold add
  rfl

theorem subtract_withPhantoms :
    subtract a m (p.withPhantoms φ) = ((subtract a m p).1, (subtract a m p).2.withPhantoms φ) :=
  add_withPhantoms a _ p φ

theorem difference_withPhantoms :
    difference a m (p.withPhantoms φ) =
      ((difference a m p).1, (difference a m p).2.withPhantoms φ) :=
  wrap_withPhantoms p φ _

theorem compare_withPhantoms :
    compare a m (p.withPhantoms φ) = (compare a m p).withPhantoms φ :=
  congrArg Prod.snd (difference_withPhantoms a m p φ)

end Alu

/-! ## Effects -/

/-- The functions inside an effect take no notice of the two bits, and pass them on; what is pulled
may set them. -/
def Effect.Blind : Effect → Prop
  | internal f => ∀ r φ, f (r.withPhantoms φ) = (f r).withPhantoms φ
  | load f => ∀ r φ v, f (r.withPhantoms φ) v = (f r v).withPhantoms φ
  | store value | push value => ∀ r φ, value (r.withPhantoms φ) = value r
  | modify f absorb =>
    (∀ v p φ, f v (p.withPhantoms φ) = ((f v p).1, (f v p).2.withPhantoms φ)) ∧
      ∀ r φ v, absorb (r.withPhantoms φ) v = (absorb r v).withPhantoms φ
  | storeMasked index value prepare =>
    (∀ r φ, index (r.withPhantoms φ) = index r) ∧ (∀ r φ, value (r.withPhantoms φ) = value r) ∧
      ∀ r φ, prepare (r.withPhantoms φ) = (prepare r).withPhantoms φ
  | branch taken => ∀ p φ, taken (p.withPhantoms φ) = taken p
  | pull f => ∃ fate : Fate, ∀ r φ v, f (r.withPhantoms φ) v = (f r v).withPhantoms (fate.apply φ)
  | jump | call | callReturn | softwareInterrupt | interruptReturn | jam => True

/-- No operation takes notice of the two bits. -/
theorem Operation.effect_blind (operation : Operation) : operation.effect.Blind := by
  cases operation with
  | sta | stx | sty | sax | pha | php => exact fun _ _ => rfl
  | bcc | bcs | bne | beq | bpl | bmi | bvc | bvs => exact fun _ _ => rfl
  | inx | iny | dex | dey | tax | tay | txa | tya | tsx | txs => exact fun _ _ => rfl
  | clc | sec | cli | sei | cld | sed | clv => exact fun _ _ => rfl
  | lda | ldx | ldy | lax | las | lxa | xaa | nop => exact fun _ _ _ => rfl
  | and | ora | eor | bit | anc | alr | arr => exact fun _ _ _ => rfl
  -- Here `rfl` would compare the sums inside; the lemmas on arithmetic spare it that.
  | adc | sbc | cmp | cpx | cpy | axs =>
    intro r φ m
    simp only [Registers.withPhantoms, Alu.add_withPhantoms, Alu.subtract_withPhantoms,
      Alu.compare_withPhantoms, Alu.difference_withPhantoms]
  | inc | dec | asl | lsr | rol | ror | slo | rla | sre =>
    exact ⟨fun _ _ _ => rfl, fun _ _ _ => rfl⟩
  | rra | dcp | isc =>
    refine ⟨fun _ _ _ => rfl, ?_⟩
    intro r φ m
    simp only [Registers.withPhantoms, Alu.add_withPhantoms, Alu.subtract_withPhantoms,
      Alu.compare_withPhantoms]
  | shy | shx | ahx | tas => exact ⟨fun _ _ => rfl, fun _ _ => rfl, fun _ _ => rfl⟩
  | pla => exact ⟨.kept, fun _ _ _ => rfl⟩
  | plp => exact ⟨.pulled, fun _ _ _ => rfl⟩
  | jmp | jsr | rts | brk | rti | kil => exact trivial

namespace Effect.Blind

variable {effect : Effect}

theorem run {B : Type} [SystemBus B] (h : effect.Blind) (operand : Operand)
    (r : Registers) (bus : B) :
    ∃ fate : Fate, ∀ φ, effect.run operand (r.withPhantoms φ) bus =
      ((effect.run operand r bus).1.withPhantoms (fate.apply φ), (effect.run operand r bus).2) := by
  cases effect with
  | internal f => exact ⟨.kept, fun φ => congrArg (·, bus) (h r φ)⟩
  | load f => exact ⟨.kept, fun φ => congrArg (·, (operand.load bus).2) (h r φ _)⟩
  | store value =>
    refine ⟨.kept, fun φ => ?_⟩
    have hvalue : value (r.withPhantoms φ) = value r := h r φ
    simp only [Effect.run, hvalue]
    rfl
  | push value =>
    refine ⟨.kept, fun φ => ?_⟩
    have hvalue : value (r.withPhantoms φ) = value r := h r φ
    simp only [Effect.run, hvalue]
    rfl
  | modify f absorb =>
    obtain ⟨hf, habsorb⟩ := h
    have hmodified (v : UInt8) (φ : Phantoms) :
        f v (r.withPhantoms φ).p = ((f v r.p).1, (f v r.p).2.withPhantoms φ) := hf v r.p φ
    refine ⟨.kept, fun φ => ?_⟩
    cases operand with
    | inline v =>
      simp only [Effect.run, hmodified]
      exact congrArg (·, bus) (habsorb { r with a := (f v r.p).1, p := (f v r.p).2 } φ _)
    | _ =>
      simp only [Effect.run, hmodified]
      exact congrArg (·, _) (habsorb { r with p := (f _ r.p).2 } φ _)
  | storeMasked index value prepare =>
    obtain ⟨hindex, hvalue, hprepare⟩ := h
    refine ⟨.kept, fun φ => ?_⟩
    simp only [Effect.run, hprepare, hindex, hvalue]
    rfl
  | branch taken =>
    refine ⟨.kept, fun φ => ?_⟩
    have htaken : taken (r.withPhantoms φ).p = taken r.p := h r.p φ
    simp only [Effect.run, htaken]
    split <;> rfl
  | pull f =>
    obtain ⟨fate, hf⟩ := h
    exact ⟨fate, fun φ => congrArg (·, (r.pull bus).2.2) (hf (r.pull bus).2.1 φ _)⟩
  | interruptReturn => exact ⟨.pulled, fun φ => rfl⟩
  | jump => exact ⟨.kept, fun φ => rfl⟩
  | call => exact ⟨.kept, fun φ => rfl⟩
  | callReturn => exact ⟨.kept, fun φ => rfl⟩
  | softwareInterrupt => exact ⟨.kept, fun φ => rfl⟩
  | jam => exact ⟨.kept, fun φ => rfl⟩

theorem extraCycles (h : effect.Blind) (operand : Operand) (p : Status) (φ : Phantoms) :
    effect.extraCycles operand (p.withPhantoms φ) = effect.extraCycles operand p := by
  cases effect with
  | branch taken =>
    have htaken : taken (p.withPhantoms φ) = taken p := h p φ
    simp only [Effect.extraCycles, htaken]
  | _ => rfl

end Effect.Blind

theorem Opcode.cost_withPhantoms (opcode : Opcode) (operand : Operand) (p : Status)
    (φ : Phantoms) : opcode.cost operand (p.withPhantoms φ) = opcode.cost operand p := by
  unfold cost
  rw [Effect.Blind.extraCycles opcode.operation.effect_blind]

/-! ## Instructions and interrupts -/

namespace Cpu

variable {T B : Type} [SystemBus B]

/-- A processor with the two bits replaced. -/
def withPhantoms (cpu : Cpu T) (φ : Phantoms) : Cpu T :=
  { cpu with registers := cpu.registers.withPhantoms φ }

variable (cpu : Cpu T) (bus : B) (φ : Phantoms)

/-- The copy that an interrupt pushes has values of its own for the two bits. -/
theorem nmi_withPhantoms :
    (cpu.withPhantoms φ).nmi bus = ((cpu.nmi bus).1.withPhantoms φ, (cpu.nmi bus).2) := rfl

theorem irq_withPhantoms :
    (cpu.withPhantoms φ).irq bus = ((cpu.irq bus).1.withPhantoms φ, (cpu.irq bus).2) := by
  have hmasked : (cpu.withPhantoms φ).registers.p.interruptDisable =
      cpu.registers.p.interruptDisable := rfl
  unfold irq
  rw [hmasked]
  split <;> rfl

theorem restart_withPhantoms :
    (cpu.withPhantoms φ).restart bus =
      ((cpu.restart bus).1.withPhantoms φ, (cpu.restart bus).2) := rfl

theorem reset_withPhantoms :
    (cpu.withPhantoms φ).reset bus = ((cpu.reset bus).1.withPhantoms φ, (cpu.reset bus).2) := rfl

theorem poll_withPhantoms :
    (cpu.withPhantoms φ).poll bus = ((cpu.poll bus).1.withPhantoms φ, (cpu.poll bus).2) := by
  have hjammed : (cpu.withPhantoms φ).jammed = cpu.jammed := rfl
  unfold poll pollInterrupts
  rw [hjammed]
  split
  · rfl
  · dsimp only
    split
    · rfl
    · split
      · exact cpu.irq_withPhantoms _ φ
      · rfl

theorem answerNmi_withPhantoms :
    (cpu.withPhantoms φ).answerNmi bus =
      ((cpu.answerNmi bus).1.withPhantoms φ, (cpu.answerNmi bus).2) := by
  have hjammed : (cpu.withPhantoms φ).jammed = cpu.jammed := rfl
  unfold answerNmi
  rw [hjammed]
  dsimp only
  split <;> rfl

theorem jam_withPhantoms :
    (cpu.withPhantoms φ).jam bus =
      ((cpu.jam bus).1, (cpu.jam bus).2.1.withPhantoms φ, (cpu.jam bus).2.2) := by
  have hbehavior : (cpu.withPhantoms φ).jamBehavior = cpu.jamBehavior := rfl
  unfold jam
  rw [hbehavior]
  split <;> rfl

theorem perform_withPhantoms (opcode : Opcode) (operand : Operand) :
    ∃ fate : Fate, ∀ φ, (cpu.withPhantoms φ).perform bus opcode operand =
      ((cpu.perform bus opcode operand).1,
        (cpu.perform bus opcode operand).2.1.withPhantoms (fate.apply φ),
        (cpu.perform bus opcode operand).2.2) := by
  obtain ⟨fate, hrun⟩ :=
    Effect.Blind.run opcode.operation.effect_blind operand cpu.registers bus
  exact ⟨fate, fun φ => perform_mapStatus (·.withPhantoms φ) (·.withPhantoms (fate.apply φ)) cpu
    (opcode.cost_withPhantoms operand _ φ) (hrun φ)⟩

/-- An instruction takes no notice of the two bits, and what becomes of them does not depend on what
they are. -/
theorem step_withPhantoms :
    ∃ fate : Fate, ∀ φ, (cpu.withPhantoms φ).step bus =
      ((cpu.step bus).1, (cpu.step bus).2.1.withPhantoms (fate.apply φ), (cpu.step bus).2.2) := by
  have hjammed (φ : Phantoms) : (cpu.withPhantoms φ).jammed = cpu.jammed := rfl
  have hregisters (φ : Phantoms) :
      (cpu.withPhantoms φ).registers = cpu.registers.withPhantoms φ := rfl
  unfold step
  simp only [hjammed, hregisters, Registers.fetchByte_withPhantoms,
    Registers.resolve_withPhantoms]
  split
  · exact ⟨.kept, fun φ => rfl⟩
  · rcases cpu.registers.fetchByte bus with ⟨code, registers, bus⟩
    dsimp only
    rcases (Opcode.ofByte code).mode.resolve registers bus with ⟨operand, registers, bus⟩
    dsimp only
    split
    · exact ⟨.kept, { cpu with registers }.jam_withPhantoms bus⟩
    · exact { cpu with registers }.perform_withPhantoms bus _ operand

/-! ## Runs -/

theorem advance_withPhantoms :
    ∃ fate : Fate, ∀ φ, (cpu.withPhantoms φ).advance bus =
      ((cpu.advance bus).1.withPhantoms (fate.apply φ), (cpu.advance bus).2) := by
  obtain ⟨fate, hstep⟩ := (cpu.poll bus).1.step_withPhantoms (cpu.poll bus).2
  refine ⟨fate, fun φ => ?_⟩
  unfold advance
  rw [poll_withPhantoms]
  exact congrArg Prod.snd (hstep φ)

theorem runThrough_withPhantoms (last : Nat) :
    ∃ fate : Fate, ∀ φ, (cpu.withPhantoms φ).runThrough bus last =
      ((cpu.runThrough bus last).1.withPhantoms (fate.apply φ), (cpu.runThrough bus last).2) := by
  fun_induction runThrough cpu bus last with
  | case1 cpu bus hle next ih =>
    obtain ⟨first, hfirst⟩ := cpu.advance_withPhantoms bus
    obtain ⟨later, hlater⟩ := ih
    refine ⟨first.andThen later, fun φ => ?_⟩
    -- The guard reads the cycle counter only, so both processors make this round.
    have hle' : (cpu.withPhantoms φ).cycle ≤ last := hle
    rw [runThrough, dif_pos hle', hfirst, Fate.apply_andThen]
    exact hlater (first.apply φ)
  | case2 cpu bus hlt =>
    refine ⟨.kept, fun φ => ?_⟩
    have hlt' : ¬ (cpu.withPhantoms φ).cycle ≤ last := hlt
    rw [runThrough, dif_neg hlt']
    rfl

/-- A run takes no notice of the two bits. -/
theorem runTo_withPhantoms [Time T] (limit : T) :
    ∃ fate : Fate, ∀ φ, (cpu.withPhantoms φ).runTo bus limit =
      ((cpu.runTo bus limit).1.withPhantoms (fate.apply φ), (cpu.runTo bus limit).2) := by
  have hstart (φ : Phantoms) : (cpu.withPhantoms φ).lastStart? limit = cpu.lastStart? limit := rfl
  unfold runTo
  simp only [hstart]
  cases cpu.lastStart? limit with
  | none => exact ⟨.kept, fun φ => rfl⟩
  | some last => exact cpu.runThrough_withPhantoms bus last

end Cpu

end Famicom
