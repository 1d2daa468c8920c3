import Famicom.Cpu.Step

/-!
# Running to a limit

Between instructions the processor polls its interrupt lines; `Cpu.advance` is one such round.
`Cpu.runTo` makes rounds as long as the cycle counter has not passed a limit, which is a time
within the frame: the fraction by which the frame began late is added here. The last instruction
may overshoot.
-/

namespace Famicom

open SystemBus

namespace Cpu

variable {T B : Type} [SystemBus B]

/-- Service an interrupt, unless the processor is halted. -/
def poll (cpu : Cpu T) (bus : B) : Cpu T × B :=
  if cpu.jammed then (cpu, bus) else cpu.pollInterrupts bus

/-- One round: interrupts, then an instruction. -/
def advance (cpu : Cpu T) (bus : B) : Cpu T × B :=
  let (cpu, bus) := cpu.poll bus
  (cpu.step bus).2

theorem cycle_le_runSequence (cpu : Cpu T) (bus : B) (sequence : Registers → B → Registers × B) :
    cpu.cycle ≤ (cpu.runSequence bus sequence).1.cycle :=
  Nat.le_add_right _ _

theorem cycle_le_poll (cpu : Cpu T) (bus : B) : cpu.cycle ≤ (cpu.poll bus).1.cycle := by
  unfold poll pollInterrupts
  split
  · exact Nat.le_refl _
  · rcases takeNmi bus with ⟨pending, bus⟩
    dsimp only
    split
    · exact cycle_le_runSequence cpu _ _
    · split
      · unfold irq
        split
        · exact Nat.le_refl _
        · exact cycle_le_runSequence cpu _ _
      · exact Nat.le_refl _

/-- Every round takes time. -/
theorem cycle_lt_advance (cpu : Cpu T) (bus : B) : cpu.cycle < (cpu.advance bus).1.cycle := by
  unfold advance
  have hp := cycle_le_poll cpu bus
  rcases hq : cpu.poll bus with ⟨polled, bus⟩
  rw [hq] at hp
  obtain ⟨⟨hc, -⟩, h2⟩ := counts_step polled bus
  dsimp only at hp ⊢
  omega

/-- Make rounds until one has begun after cycle `last`. -/
def runThrough (cpu : Cpu T) (bus : B) (last : Nat) : Cpu T × B :=
  if _ : cpu.cycle ≤ last then
    let next := cpu.advance bus
    runThrough next.1 next.2 last
  else (cpu, bus)
termination_by last + 1 - cpu.cycle
decreasing_by
  have := cycle_lt_advance cpu bus
  omega

/-- The last cycle of the frame at which a round begins before `limit` has passed. -/
def lastStart? [Time T] (cpu : Cpu T) (limit : T) : Option Nat :=
  Time.lastUnit? (limit + cpu.cycleOffset)

/-- Make rounds until the cycle counter has passed `limit`. -/
def runTo [Time T] (cpu : Cpu T) (bus : B) (limit : T) : Cpu T × B :=
  match cpu.lastStart? limit with
  | none => (cpu, bus)
  | some last => cpu.runThrough bus last

end Cpu

end Famicom
