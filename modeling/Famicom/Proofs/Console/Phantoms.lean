import Famicom.Cartridge.Nrom
import Famicom.Proofs.Console.Lockstep
import Famicom.Proofs.Cpu.ExactTime
import Famicom.Proofs.Cpu.Phantoms
import Famicom.Proofs.Cpu.Pushes

/-!
# No program sees the bits without a flip-flop

Consoles whose status registers differ in bits 4 and 5 only go on to differ in these only, whatever
their processors are asked for; so the bits that power-on leaves set are of no consequence to any
program. A program sees copies of the status, in which the two bits say who has pushed them.

* `obey_withPhantoms`: a call takes no notice of the two bits.
* `phantoms_obeyAll`: from power-on, what the two bits can be.
* `phantoms_unobservable`: all of it, over any calls.
-/

namespace Famicom

open Phantoms

/-- What the processor of a console can be asked for. -/
inductive CpuCall (T : Type) where
  | instruction
  | run (limit : T)
  | nmi
  | irq
  /-- The reset sequence. -/
  | restart
  /-- The reset sequence, after which the processor is not halted. -/
  | reset
  /-- The reset button of the console. -/
  | resetButton
  | frame (call : FrameCall)

namespace Console

section

variable {T C A D : Type}

/-- Let the processor do something with the bus. -/
def drive (console : Console T C A D) (run : Cpu T → Bus C A D → Cpu T × Bus C A D) :
    Console T C A D :=
  let (cpu, bus) := run console.cpu console.bus
  { console with cpu, bus }

/-- The two bits of the status register. -/
def phantoms (console : Console T C A D) : Phantoms := console.cpu.registers.p.phantoms

/-- A console with the two bits replaced. -/
def withPhantoms (console : Console T C A D) (φ : Phantoms) : Console T C A D :=
  { console with cpu := console.cpu.withPhantoms φ }

theorem withPhantoms_phantoms (console : Console T C A D) :
    console.withPhantoms console.phantoms = console := rfl

/-- What the processor does regardless of the two bits, the console does. -/
theorem drive_withPhantoms (console : Console T C A D)
    (run : Cpu T → Bus C A D → Cpu T × Bus C A D) (fate : Fate)
    (h : ∀ φ, run (console.cpu.withPhantoms φ) console.bus =
      ((run console.cpu console.bus).1.withPhantoms (fate.apply φ),
        (run console.cpu console.bus).2)) (φ : Phantoms) :
    (console.withPhantoms φ).drive run = (console.drive run).withPhantoms (fate.apply φ) :=
  congrArg (fun (cpu, bus) => { console with cpu, bus }) (h φ)

end

variable {T C A D S : Type} [Time T] [Cartridge C] [Apu A] [Controller D] [VideoSink S]

/-! ## Calls -/

/-- Do what the processor is asked for. -/
def obey (console : Console T C A D) (sink : S) : CpuCall T → Console T C A D × S
  | .instruction => (console.drive fun cpu bus => (cpu.step bus).2, sink)
  | .run limit => (console.drive fun cpu bus => cpu.runTo bus limit, sink)
  | .nmi => (console.drive Cpu.nmi, sink)
  | .irq => (console.drive Cpu.irq, sink)
  | .restart => (console.drive Cpu.restart, sink)
  | .reset => (console.drive Cpu.reset, sink)
  | .resetButton => (console.reset, sink)
  | .frame call => console.runCall sink call

/-- Do what the processor is asked for, one call after the other. -/
def obeyAll (console : Console T C A D) (sink : S) : List (CpuCall T) → Console T C A D × S
  | [] => (console, sink)
  | call :: calls => (console.obey sink call).1.obeyAll (console.obey sink call).2 calls

/-! ## Going on alike -/

variable (console : Console T C A D)

theorem act_withPhantoms (a : FrameAct T) :
    ∃ fate : Fate, ∀ φ,
      (console.withPhantoms φ).act a = (console.act a).withPhantoms (fate.apply φ) := by
  cases a with
  | runCpu limit =>
    obtain ⟨fate, hrun⟩ := console.cpu.runTo_withPhantoms console.bus limit
    exact ⟨fate, console.drive_withPhantoms (fun cpu bus => cpu.runTo bus limit) fate hrun⟩
  | answerNmi =>
    have hanswer := console.cpu.answerNmi_withPhantoms console.bus
    exact ⟨.kept, console.drive_withPhantoms Cpu.answerNmi .kept hanswer⟩
  | _ => exact ⟨.kept, fun φ => rfl⟩

theorem performAll_withPhantoms (acts : List (FrameAct T)) :
    ∃ fate : Fate, ∀ φ,
      (console.withPhantoms φ).performAll acts =
        (console.performAll acts).withPhantoms (fate.apply φ) := by
  induction acts generalizing console with
  | nil => exact ⟨.kept, fun φ => rfl⟩
  | cons a acts ih =>
    obtain ⟨first, hfirst⟩ := console.act_withPhantoms a
    obtain ⟨later, hlater⟩ := ih (console.act a)
    refine ⟨first.andThen later, fun φ => ?_⟩
    rw [performAll_cons, performAll_cons, hfirst, Fate.apply_andThen]
    exact hlater (first.apply φ)

/-- Consoles that differ in the two bits perform the same acts. -/
theorem lockstep_phantoms :
    Lockstep fun console other : Console T C A D => ∃ φ, other = console.withPhantoms φ where
  rendering := by
    rintro console _ ⟨φ, rfl⟩
    rfl
  act := by
    rintro console _ ⟨φ, rfl⟩ a
    obtain ⟨fate, hact⟩ := console.act_withPhantoms a
    exact ⟨fate.apply φ, hact φ⟩

theorem runCall_withPhantoms (sink : S) (call : FrameCall) :
    ∃ fate : Fate, ∀ φ, (console.withPhantoms φ).runCall sink call =
      ((console.runCall sink call).1.withPhantoms (fate.apply φ),
        (console.runCall sink call).2) := by
  obtain ⟨fate, hacts⟩ := console.performAll_withPhantoms console.frameActs
  refine ⟨fate, fun φ => ?_⟩
  have hsame : (console.withPhantoms φ).frameActs = console.frameActs :=
    (lockstep_phantoms.frameActs ⟨φ, rfl⟩).symm
  have hpicture {console other : Console T C A D} (h : ∃ φ, other = console.withPhantoms φ) :
      console.bus.ppu.frame = other.bus.ppu.frame := by
    obtain ⟨φ, rfl⟩ := h
    rfl
  have hsink : (console.runCall sink call).2 = ((console.withPhantoms φ).runCall sink call).2 :=
    (lockstep_phantoms.runCall hpicture ⟨φ, rfl⟩ sink call).2
  -- The consoles perform one list of acts, which decides on one fate for whatever the bits are.
  refine Prod.ext ?_ hsink.symm
  dsimp only
  rw [runCall_fst, runCall_fst, runUnpainted_eq, runUnpainted_eq, hsame]
  exact hacts φ

/-- Whatever the processor is asked for, it takes no notice of the two bits, and what becomes of
them does not depend on what they are. -/
theorem obey_withPhantoms (sink : S) (call : CpuCall T) :
    ∃ fate : Fate, ∀ φ, (console.withPhantoms φ).obey sink call =
      ((console.obey sink call).1.withPhantoms (fate.apply φ), (console.obey sink call).2) := by
  have hdrive (run : Cpu T → Bus C A D → Cpu T × Bus C A D) (fate : Fate)
      (h : ∀ φ, run (console.cpu.withPhantoms φ) console.bus =
        ((run console.cpu console.bus).1.withPhantoms (fate.apply φ),
          (run console.cpu console.bus).2)) :
      ∃ fate : Fate, ∀ φ, ((console.withPhantoms φ).drive run, sink) =
        ((console.drive run).withPhantoms (fate.apply φ), sink) :=
    ⟨fate, fun φ => congrArg (·, sink) (console.drive_withPhantoms run fate h φ)⟩
  cases call with
  | instruction =>
    obtain ⟨fate, hstep⟩ := console.cpu.step_withPhantoms console.bus
    exact hdrive (fun cpu bus => (cpu.step bus).2) fate fun φ => congrArg Prod.snd (hstep φ)
  | run limit =>
    obtain ⟨fate, hrun⟩ := console.cpu.runTo_withPhantoms console.bus limit
    exact hdrive (fun cpu bus => cpu.runTo bus limit) fate hrun
  | nmi => exact hdrive Cpu.nmi .kept (console.cpu.nmi_withPhantoms console.bus)
  | irq => exact hdrive Cpu.irq .kept (console.cpu.irq_withPhantoms console.bus)
  | restart => exact hdrive Cpu.restart .kept (console.cpu.restart_withPhantoms console.bus)
  | reset => exact hdrive Cpu.reset .kept (console.cpu.reset_withPhantoms console.bus)
  | resetButton => exact ⟨.kept, fun φ => rfl⟩
  | frame call => exact console.runCall_withPhantoms sink call

theorem obeyAll_withPhantoms (sink : S) (calls : List (CpuCall T)) :
    ∃ fate : Fate, ∀ φ, (console.withPhantoms φ).obeyAll sink calls =
      ((console.obeyAll sink calls).1.withPhantoms (fate.apply φ),
        (console.obeyAll sink calls).2) := by
  induction calls generalizing console sink with
  | nil => exact ⟨.kept, fun φ => rfl⟩
  | cons call calls ih =>
    obtain ⟨first, hfirst⟩ := console.obey_withPhantoms sink call
    obtain ⟨later, hlater⟩ := ih (console.obey sink call).1 (console.obey sink call).2
    refine ⟨first.andThen later, fun φ => ?_⟩
    unfold obeyAll
    rw [hfirst, Fate.apply_andThen]
    exact hlater (first.apply φ)

/-- What has become of the two bits after some calls. -/
theorem phantoms_obeyAll (sink : S) (calls : List (CpuCall T)) :
    ∃ fate : Fate, (console.obeyAll sink calls).1.phantoms = fate.apply console.phantoms := by
  obtain ⟨fate, hcalls⟩ := console.obeyAll_withPhantoms sink calls
  have hself := hcalls console.phantoms
  rw [withPhantoms_phantoms] at hself
  exact ⟨fate, congrArg (·.1.phantoms) hself⟩

/-! ## What a program can tell -/

/-- No program can tell what the two bits of the register are. Consoles that differ in them only go
on to do so, whatever their processors are asked for and whatever is connected to them. Each copy
that is pushed has values of its own for the two bits. From power-on, bit 5 is set at all times, and
bit 4 is so until it has been cleared once. -/
theorem phantoms_unobservable (sink : S) :
    (∀ φ calls, ∃ ψ, (console.withPhantoms φ).obeyAll sink calls =
      ((console.obeyAll sink calls).1.withPhantoms ψ, (console.obeyAll sink calls).2)) ∧
    (∀ calls, let later := (console.obeyAll sink calls).1
      later.cpu.StatusPushes later.bus) ∧
    ∀ calls, let later := console.powerOn.obeyAll sink calls
      later.1.phantoms.unused = true ∧
        (later.1.phantoms.breakFlag = false →
          ∀ more, (later.1.obeyAll later.2 more).1.phantoms.breakFlag = false) := by
  refine ⟨?_, ?_, ?_⟩
  · intro φ calls
    obtain ⟨fate, hcalls⟩ := console.obeyAll_withPhantoms sink calls
    exact ⟨fate.apply φ, hcalls φ⟩
  · intro calls later
    exact later.cpu.statusPushes later.bus
  · intro calls later
    constructor
    · obtain ⟨fate, hfate⟩ := console.powerOn.phantoms_obeyAll sink calls
      rw [hfate]
      cases fate <;> rfl
    · intro hcleared more
      obtain ⟨fate, hfate⟩ := later.1.phantoms_obeyAll later.2 more
      rw [hfate]
      cases fate with
      | kept => exact hcleared
      | pulled => rfl

/-- A program that pushes the status, pulls it, and waits. -/
def stacking : Console ℚ Nrom SilentApu Unplugged :=
  .new
    (.new
      #[
        -- PHP, PLP, JMP $8002
        0x08, 0x28, 0x4C, 0x02, 0x80, 0xEA, 0xEA, 0xEA, 0xEA, 0xEA, 0xEA, 0xEA,
        -- the start address
        0x00, 0x80,
        0xEA, 0xEA]
      #[] .vertical)
    .new ⟨⟩ ⟨⟩ .default

/-- The copy has both bits set; the pull clears bit 4, which stays so while the program waits. -/
theorem phantoms_unobservable_stacking :
    let later := stacking.powerOn.obeyAll NullSink.mk [.instruction, .instruction]
    stacking.cpu.stepWrites stacking.bus = [(0x01FD, 0x34)] ∧
      later.1.phantoms.breakFlag = false ∧
        (later.1.obeyAll later.2 [.frame .painted]).1.phantoms.breakFlag = false := by
  intro later
  obtain ⟨-, hpushes, hbits⟩ := phantoms_unobservable stacking NullSink.mk
  have hcleared : later.1.phantoms.breakFlag = false := rfl
  exact ⟨(hpushes []).php rfl rfl, hcleared, (hbits [.instruction, .instruction]).2 hcleared _⟩

end Console

end Famicom
