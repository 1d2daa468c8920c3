import Famicom.Proofs.Console.Moments
import Famicom.Proofs.Console.Phantoms
import Famicom.Proofs.Cpu.Flags

/-!
# The maskable interrupt does not nest

Every interrupt sequence disables the maskable interrupt, and so does power-on. It stays disabled
until the program runs one of three operations, whatever other instructions and interrupts there are
before that. So a line that stays active does not interrupt the handler.

* `Turn`, `Console.turnsOver`: the maskable interrupts and the instructions of a run.
* `Turn.follow?`: the order in which they may follow each other.
* `Cpu.Masked`: what an observer of that order knows of the processor.
* `Cpu.Masked.advance`, `Console.masked_act`: a round and an act keep to the order.
* `Console.unnested_turnsOver`: from power-on, two interrupts never come without one of the three
  operations between them.
-/

namespace Famicom

open SystemBus

/-- A maskable interrupt, or an instruction. -/
inductive Turn where
  /-- The sequence of the maskable interrupt; whether the flag was set that disables it, and whether
  the other interrupt was pending. -/
  | irq (disabled pending : Bool)
  | execute (operation : Operation)
  deriving DecidableEq, Repr

/-- The operations that can enable the maskable interrupt. -/
def Operation.enabling : List Operation := [.cli, .plp, .rti]

namespace Turn

/-- Whether it is an interrupt. -/
def isIrq : Turn → Bool
  | irq .. => true
  | execute _ => false

/-! ## The order of turns -/

/-- An observer knows whether the interrupt may have been enabled since it was last disabled. It
comes only then, and not in place of the other interrupt. -/
def next? (enabled : Bool) : Turn → Option Bool
  | irq disabled pending => if enabled && !disabled && !pending then some false else none
  | execute operation => some (enabled || decide (operation ∈ Operation.enabling))

/-- What some turns tell the observer, if they are in order. -/
def follow? (enabled : Bool) (trace : List Turn) : Option Bool := trace.foldlM next? enabled

variable {enabled mid enabled' : Bool}

/-- Traces that are in order are so one after the other. -/
theorem follow?_append {trace trace' : List Turn} (h : follow? enabled trace = some mid)
    (h' : follow? mid trace' = some enabled') :
    follow? enabled (trace ++ trace') = some enabled' := by
  rw [follow?, List.foldlM_append]
  exact Option.bind_eq_some_iff.mpr ⟨mid, h, h'⟩

/-- An interrupt comes while it is enabled, and no other is pending. -/
theorem next?_irq {disabled pending : Bool}
    (h : next? enabled (.irq disabled pending) = some enabled') :
    enabled = true ∧ disabled = false ∧ pending = false ∧ enabled' = false := by
  cases enabled <;> cases disabled <;> cases pending <;> simp [next?] at h ⊢
  exact h

/-- If the interrupt has come to be enabled, an operation has enabled it since the last one. -/
theorem exists_enabling {trace : List Turn} (h : follow? false trace = some true) :
    ∃ early operation late, trace = early ++ .execute operation :: late ∧
      operation ∈ Operation.enabling ∧ ∀ t ∈ late, t.isIrq = false := by
  induction trace using List.reverseRecOn with
  | nil => cases h
  | append_singleton trace t ih =>
    obtain ⟨enabled, htrace, ht⟩ := foldlM_concat h
    cases t with
    | irq disabled pending => cases (next?_irq ht).2.2.2
    | execute operation =>
      by_cases hop : operation ∈ Operation.enabling
      · exact ⟨trace, operation, [], rfl, hop, fun _ ht => absurd ht List.not_mem_nil⟩
      · -- The operation that has enabled it lies further back.
        have henabled : enabled = true := by simpa [next?, hop] using ht
        rw [henabled] at htrace
        obtain ⟨early, enabler, late, rfl, henabler, hlate⟩ := ih htrace
        refine ⟨early, enabler, late ++ [.execute operation], by simp, henabler, fun t ht => ?_⟩
        rcases List.mem_append.mp ht with ht | ht
        · exact hlate t ht
        · rw [List.mem_singleton.mp ht]
          rfl

end Turn

/-- What a trace must look like for the maskable interrupt not to nest. -/
structure Unnested (trace : List Turn) : Prop where
  /-- It comes only while the flag that disables it is clear and the other interrupt is not
  pending. -/
  clear : ∀ disabled pending, .irq disabled pending ∈ trace → disabled = false ∧ pending = false
  /-- Before every one there is an operation that can enable it, and no other one in between. -/
  enabled : ∀ before irq after, trace = before ++ irq :: after → irq.isIrq = true →
    ∃ early operation late, before = early ++ .execute operation :: late ∧
      operation ∈ Operation.enabling ∧ ∀ t ∈ late, t.isIrq = false

/-- In a trace whose turns are in order, the interrupt does not nest. -/
theorem Turn.unnested {trace : List Turn} {enabled : Bool}
    (h : follow? false trace = some enabled) : Unnested trace where
  clear disabled pending hmem := by
    obtain ⟨before, after, rfl⟩ := List.append_of_mem hmem
    obtain ⟨_, _, -, hirq, -⟩ := foldlM_split h
    exact ⟨(next?_irq hirq).2.1, (next?_irq hirq).2.2.1⟩
  enabled before irq after hsplit hisIrq := by
    subst hsplit
    obtain ⟨mid, _, hbefore, hirq, -⟩ := foldlM_split h
    cases irq with
    | execute operation => cases hisIrq
    | irq disabled pending =>
      rw [(next?_irq hirq).1] at hbefore
      exact exists_enabling hbefore

/-! ## Turns -/

namespace Cpu

variable {T B : Type} [SystemBus B]

/-- The maskable interrupt, if some accesses show that its sequence is run: it reads its vector. -/
def irqTurn (cpu : Cpu T) (bus : B) (accesses : List Access) : List Turn :=
  if .read Interrupt.irqVector ∈ accesses then
    [.irq cpu.registers.p.interruptDisable (takeNmi bus).1]
  else []

/-- The interrupt with which a round begins, if it is the maskable one. -/
def pollTurns (cpu : Cpu T) (bus : B) : List Turn :=
  cpu.irqTurn bus (cpu.poll (Recorder.start bus)).2.accesses

/-- The next instruction, unless the processor is halted. -/
def stepTurns (cpu : Cpu T) (bus : B) : List Turn :=
  if cpu.jammed then [] else [.execute (cpu.nextOpcode bus).operation]

/-- The turns of a round. -/
def roundTurns (cpu : Cpu T) (bus : B) : List Turn :=
  cpu.pollTurns bus ++ (cpu.poll bus).1.stepTurns (cpu.poll bus).2

/-- The turns of the rounds that begin up to cycle `last`. -/
def turnsThrough (cpu : Cpu T) (bus : B) (last : Nat) : List Turn :=
  if _ : cpu.cycle ≤ last then
    let next := cpu.advance bus
    cpu.roundTurns bus ++ turnsThrough next.1 next.2 last
  else []
termination_by last + 1 - cpu.cycle
decreasing_by
  have := cycle_lt_advance cpu bus
  omega

theorem turnsThrough_of_le {cpu : Cpu T} {last : Nat} (h : cpu.cycle ≤ last) (bus : B) :
    cpu.turnsThrough bus last =
      cpu.roundTurns bus ++ (cpu.advance bus).1.turnsThrough (cpu.advance bus).2 last := by
  rw [turnsThrough, dif_pos h]

theorem turnsThrough_of_lt {cpu : Cpu T} {last : Nat} (h : last < cpu.cycle) (bus : B) :
    cpu.turnsThrough bus last = [] := by
  rw [turnsThrough, dif_neg (Nat.not_le.mpr h)]

/-- The turns on the way to a limit. -/
def turns [Time T] (cpu : Cpu T) (bus : B) (limit : T) : List Turn :=
  match cpu.lastStart? limit with
  | none => []
  | some last => cpu.turnsThrough bus last

end Cpu

namespace Console

variable {T C A D S : Type} [Time T] [Cartridge C] [Apu A] [Controller D] [VideoSink S]

/-- The turns of an act. -/
def turnsOf (console : Console T C A D) : FrameAct T → List Turn
  | .runCpu limit => console.cpu.turns console.bus limit
  | .answerNmi => console.cpu.irqTurn console.bus (console.cpu.nmiAccesses console.bus)
  | _ => []

/-- The turns of some acts. -/
def turns (console : Console T C A D) : List (FrameAct T) → List Turn
  | [] => []
  | a :: rest => console.turnsOf a ++ (console.act a).turns rest

/-- The turns of something that the processor is asked for; resets and the non-maskable interrupt
take none. -/
def callTurns (console : Console T C A D) : CpuCall T → List Turn
  | .instruction => console.cpu.stepTurns console.bus
  | .run limit => console.cpu.turns console.bus limit
  | .frame _ => console.turns console.frameActs
  | .irq =>
    console.cpu.irqTurn console.bus (console.cpu.irq (Recorder.start console.bus)).2.accesses
  | .nmi | .restart | .reset | .resetButton => []

/-- The turns while the processor is asked for one thing after the other. -/
def turnsOver (console : Console T C A D) (sink : S) : List (CpuCall T) → List Turn
  | [] => []
  | call :: calls =>
    console.callTurns call ++ (console.obey sink call).1.turnsOver (console.obey sink call).2 calls

end Console

/-! ## What keeps the interrupt disabled -/

namespace Operation

/-- An operation that affects the flag can enable interrupts, or else disables them. -/
theorem cases_of_interruptDisable {operation : Operation}
    (h : .interruptDisable ∈ operation.affects) :
    operation ∈ enabling ∨ operation = .sei ∨ operation = .brk ∨ operation = .kil := by
  revert h
  cases operation <;> decide

end Operation

namespace Cpu

variable {T B : Type} [SystemBus B] {cpu : Cpu T} {bus : B}

/-- Only the three operations can enable the interrupt. -/
theorem interruptDisable_step (h : (cpu.nextOpcode bus).operation ∉ Operation.enabling)
    (hdisabled : cpu.registers.p.interruptDisable = true) :
    (cpu.step bus).2.1.registers.p.interruptDisable = true := by
  by_cases haffects : .interruptDisable ∈ (cpu.nextOpcode bus).operation.affects
  · cases hjammed : cpu.jammed with
    | true =>
      rw [p_step_of_jammed hjammed]
      exact hdisabled
    | false =>
      rcases (Operation.cases_of_interruptDisable haffects).resolve_left h with hop | hop | hop
      · rw [p_step_of_running hjammed (hop ▸ Operation.noConfusion), hop]
        rfl
      · rw [p_step_of_running hjammed (hop ▸ Operation.noConfusion), hop]
        rfl
      · rw [p_step_of_kil hjammed hop]
        cases cpu.jamBehavior with
        | reset => rfl
        | halt => exact hdisabled
  · exact (flag_step haffects).trans hdisabled

/-- The sequence of the other interrupt does not read the vector of this one. -/
theorem irqTurn_of_nmi (cpu : Cpu T) (bus : B) :
    cpu.irqTurn bus (cpu.nmi (takeNmi (Recorder.start bus)).2).2.accesses = [] := by
  refine if_neg ?_
  show Access.read Interrupt.irqVector ∉
    [.read (Interrupt.nmiVector + 1), .read Interrupt.nmiVector, .write _ _, .write _ _, .write _ _]
  simp only [List.mem_cons, Access.read.injEq, reduceCtorEq, List.not_mem_nil, or_false]
  decide

/-- Its own sequence does. -/
theorem irqTurn_of_sequence (cpu : Cpu T) (bus : B) :
    cpu.irqTurn bus (cpu.runSequence (takeNmi (Recorder.start bus)).2
      fun r bus => r.interrupt bus Interrupt.irqVector false).2.accesses =
        [.irq cpu.registers.p.interruptDisable (takeNmi bus).1] :=
  if_pos (.tail _ (.head _))

/-- Unless the observer knows that the interrupt may have been enabled, it is disabled. -/
def Masked (enabled : Bool) (cpu : Cpu T) : Prop :=
  enabled = false → cpu.registers.p.interruptDisable = true

namespace Masked

variable {enabled : Bool}

/-! ## A round -/

/-- An interrupt, or none, with which a round begins. -/
theorem poll (h : Masked enabled cpu) (bus : B) :
    ∃ later, Turn.follow? enabled (cpu.pollTurns bus) = some later ∧
      Masked later (cpu.poll bus).1 := by
  have hbare : (cpu.poll bus).1 = (cpu.poll (Recorder.start bus)).1 :=
    congrArg Prod.fst (Recorder.busMap_bus.poll cpu (Recorder.start bus))
  rw [pollTurns, hbare]
  cases hjammed : cpu.jammed with
  | true =>
    have hpoll : cpu.poll (Recorder.start bus) = (cpu, Recorder.start bus) := if_pos hjammed
    rw [hpoll]
    exact ⟨enabled, rfl, h⟩
  | false =>
    obtain ⟨-, -, hpoll⟩ | ⟨hpending, -, hpoll⟩ | ⟨-, -, hpoll⟩ :=
      poll_cases hjammed (Recorder.start bus)
    · rw [hpoll]
      refine ⟨enabled, ?_, fun _ => rfl⟩
      rw [cpu.irqTurn_of_nmi bus]
      rfl
    · rw [hpoll]
      unfold irq
      cases hdisabled : cpu.registers.p.interruptDisable with
      | true => exact ⟨enabled, rfl, h⟩
      | false =>
        -- By the invariant, a clear flag means that the observer knows of an operation before it.
        have henabled : enabled = true := by
          by_contra hnot
          exact Bool.false_ne_true (hdisabled.symm.trans (h (Bool.of_not_eq_true hnot)))
        have hclear : (takeNmi bus).1 = false := hpending
        refine ⟨false, ?_, fun _ => rfl⟩
        rw [henabled, if_neg Bool.false_ne_true, cpu.irqTurn_of_sequence bus, hdisabled, hclear]
        rfl
    · rw [hpoll]
      exact ⟨enabled, rfl, h⟩

theorem step (h : Masked enabled cpu) (bus : B) :
    ∃ later, Turn.follow? enabled (cpu.stepTurns bus) = some later ∧
      Masked later (cpu.step bus).2.1 := by
  unfold stepTurns
  cases hjammed : cpu.jammed with
  | true =>
    refine ⟨enabled, rfl, fun henabled => ?_⟩
    rw [p_step_of_jammed hjammed]
    exact h henabled
  | false =>
    refine ⟨enabled || decide ((cpu.nextOpcode bus).operation ∈ Operation.enabling), rfl,
      fun hlater => ?_⟩
    obtain ⟨henabled, hop⟩ := Bool.or_eq_false_iff.mp hlater
    exact interruptDisable_step (of_decide_eq_false hop) (h henabled)

theorem advance (h : Masked enabled cpu) (bus : B) :
    ∃ later, Turn.follow? enabled (cpu.roundTurns bus) = some later ∧
      Masked later (cpu.advance bus).1 := by
  obtain ⟨mid, hmid, hpoll⟩ := h.poll bus
  obtain ⟨later, hlater, hstep⟩ := hpoll.step (cpu.poll bus).2
  exact ⟨later, Turn.follow?_append hmid hlater, hstep⟩

/-! ## Runs -/

theorem runThrough (h : Masked enabled cpu) (bus : B) (last : Nat) :
    ∃ later, Turn.follow? enabled (cpu.turnsThrough bus last) = some later ∧
      Masked later (cpu.runThrough bus last).1 := by
  fun_induction Cpu.turnsThrough cpu bus last generalizing enabled with
  | case1 cpu bus hle next =>
    rename_i ih
    obtain ⟨mid, hmid, hround⟩ := h.advance bus
    obtain ⟨later, hlater, hrest⟩ := ih hround
    rw [Cpu.runThrough, dif_pos hle]
    exact ⟨later, Turn.follow?_append hmid hlater, hrest⟩
  | case2 cpu bus hlt =>
    rw [Cpu.runThrough, dif_neg hlt]
    exact ⟨enabled, rfl, h⟩

theorem runTo [Time T] (h : Masked enabled cpu) (bus : B) (limit : T) :
    ∃ later, Turn.follow? enabled (cpu.turns bus limit) = some later ∧
      Masked later (cpu.runTo bus limit).1 := by
  unfold Cpu.turns Cpu.runTo
  cases cpu.lastStart? limit with
  | none => exact ⟨enabled, rfl, h⟩
  | some last => exact h.runThrough bus last

theorem answerNmi (h : Masked enabled cpu) (bus : B) :
    ∃ later, Turn.follow? enabled (cpu.irqTurn bus (cpu.nmiAccesses bus)) = some later ∧
      Masked later (cpu.answerNmi bus).1 := by
  have htaken : (takeNmi (Recorder.start bus)).1 = (takeNmi bus).1 := rfl
  unfold nmiAccesses Cpu.answerNmi
  dsimp only
  rw [htaken]
  split
  · refine ⟨enabled, ?_, fun _ => rfl⟩
    rw [cpu.irqTurn_of_nmi bus]
    rfl
  · exact ⟨enabled, rfl, h⟩

end Masked

end Cpu

/-! ## Frames and calls -/

namespace Console

variable {T C A D S : Type} [Time T] [Cartridge C] [Apu A] [Controller D] [VideoSink S]
  {console : Console T C A D} {enabled : Bool}

theorem masked_act (h : console.cpu.Masked enabled) (a : FrameAct T) :
    ∃ later, Turn.follow? enabled (console.turnsOf a) = some later ∧
      (console.act a).cpu.Masked later := by
  cases a with
  | runCpu limit => exact h.runTo console.bus limit
  | answerNmi => exact h.answerNmi console.bus
  | _ => exact ⟨enabled, rfl, h⟩

theorem masked_performAll (h : console.cpu.Masked enabled) (acts : List (FrameAct T)) :
    ∃ later, Turn.follow? enabled (console.turns acts) = some later ∧
      (console.performAll acts).cpu.Masked later := by
  induction acts generalizing console enabled with
  | nil => exact ⟨enabled, rfl, h⟩
  | cons a acts ih =>
    obtain ⟨mid, hmid, hact⟩ := masked_act h a
    obtain ⟨later, hlater, hrest⟩ := ih hact
    exact ⟨later, Turn.follow?_append hmid hlater, hrest⟩

/-- Whatever the processor is asked for, except the maskable interrupt itself. -/
theorem masked_obey (h : console.cpu.Masked enabled) (sink : S) {call : CpuCall T}
    (hcall : call ≠ .irq) :
    ∃ later, Turn.follow? enabled (console.callTurns call) = some later ∧
      (console.obey sink call).1.cpu.Masked later := by
  cases call with
  | instruction => exact h.step console.bus
  | run limit => exact h.runTo console.bus limit
  | irq => exact absurd rfl hcall
  | frame call =>
    have hframe := masked_performAll h console.frameActs
    rw [← runUnpainted_eq, ← console.runCall_fst sink call] at hframe
    exact hframe
  | nmi | restart | reset | resetButton => exact ⟨enabled, rfl, fun _ => rfl⟩

theorem masked_obeyAll (h : console.cpu.Masked enabled) (sink : S) {calls : List (CpuCall T)}
    (hcalls : .irq ∉ calls) :
    ∃ later, Turn.follow? enabled (console.turnsOver sink calls) = some later ∧
      (console.obeyAll sink calls).1.cpu.Masked later := by
  induction calls generalizing console sink enabled with
  | nil => exact ⟨enabled, rfl, h⟩
  | cons call calls ih =>
    obtain ⟨hne, hrest⟩ := List.ne_and_not_mem_of_not_mem_cons hcalls
    obtain ⟨mid, hmid, hcall⟩ := masked_obey h sink hne.symm
    obtain ⟨later, hlater, hover⟩ := ih hcall (console.obey sink call).2 hrest
    exact ⟨later, Turn.follow?_append hmid hlater, hover⟩

/-- From power-on, the maskable interrupt does not nest, whatever is asked of the processor, unless
it is the interrupt itself. It comes only while it is not disabled and the other interrupt is not
pending, and only after an operation that can enable it, which the program has executed since the
last one. -/
theorem unnested_turnsOver (console : Console T C A D) (sink : S) {calls : List (CpuCall T)}
    (hcalls : .irq ∉ calls) : Unnested (console.powerOn.turnsOver sink calls) := by
  have hstart : console.powerOn.cpu.Masked false := fun _ => rfl
  obtain ⟨enabled, hfollow, -⟩ := masked_obeyAll hstart sink hcalls
  exact Turn.unnested hfollow

end Console

/-! ## A line that stays active -/

/-- A board that holds the interrupt line; wherever it is read, there is the operation that enables
interrupts. -/
structure Insistent where
  deriving DecidableEq, Repr

instance : Cartridge Insistent where
  cpuRead board _ := (0x58, board)
  cpuWrite board _ _ := board
  ppuRead board _ := (0, board)
  ppuWrite board _ _ := board
  ciramA10 _ address := Mirroring.horizontal.ciramA10 address
  ciramEnabled _ _ := true
  irqPending _ := true

namespace Console

/-- A console with this board. -/
def insistent : Console ℚ Insistent SilentApu Unplugged := .new ⟨⟩ .new ⟨⟩ ⟨⟩ .default

theorem turns_insistent :
    insistent.powerOn.turnsOver NullSink.mk [.run 9] =
      [.execute .cli, .irq false false, .execute .cli] := by
  have hlast : insistent.powerOn.cpu.lastStart? 9 = some 9 := by decide +kernel
  simp only [turnsOver, callTurns, List.append_nil]
  unfold Cpu.turns
  rw [hlast]
  dsimp only
  rw [Cpu.turnsThrough_of_le (by decide +kernel), Cpu.turnsThrough_of_le (by decide +kernel),
    Cpu.turnsThrough_of_lt (by decide +kernel)]
  decide +kernel

/-- The first interrupt comes after the first instruction. -/
theorem unnested_turnsOver_insistent :
    (.irq : CpuCall ℚ) ∉ [.run 9] ∧
      insistent.powerOn.turnsOver NullSink.mk [.run 9] =
        [.execute .cli, .irq false false, .execute .cli] ∧
      Unnested (insistent.powerOn.turnsOver NullSink.mk [.run 9]) := by
  have hcalls : (.irq : CpuCall ℚ) ∉ [.run 9] := by simp
  exact ⟨hcalls, turns_insistent, unnested_turnsOver insistent NullSink.mk hcalls⟩

end Console

end Famicom
