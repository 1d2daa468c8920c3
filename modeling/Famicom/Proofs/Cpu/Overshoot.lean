import Famicom.Proofs.Cpu.ExactTime

/-!
# How far a run goes

A run checks its bound between rounds only, so the last round passes it. How far depends on what can
come together in a round: an interrupt, an instruction and a transfer to sprite memory. That every
round takes time, even that of a halted processor, is what ends the run.

* `Cpu.RunsPast`: some rounds lead past a bound.
* `Cpu.runTo_passes`: a run does nothing if its bound has passed, and else leads past it.
-/

namespace Famicom

namespace Cpu

variable {B : Type} [SystemBus B]

/-- Some rounds, one at least, lead past a bound. -/
structure RunsPast (cpu : Cpu ℚ) (bus : B) (bound : ℚ) (later : Cpu ℚ × B) : Prop where
  /-- Each round, with the interrupt that it may answer first, begins before the bound has passed.
  Every round before it has taken two cycles or more, so the bound limits their number. -/
  rounds : ∃ n, 0 < n ∧ later = cpu.rounds bus n ∧ ∀ m < n,
    ((cpu.cycle + 2 * m : ℕ) : ℚ) ≤ (cpu.rounds bus m).1.cycle ∧
      ((cpu.rounds bus m).1.cycle : ℚ) ≤ bound
  /-- The last round passes the bound. -/
  late : bound < later.1.cycle
  /-- It does so by what the longest round takes at most. -/
  near : later.1.cycle ≤ bound + 529
  /-- The bound is the same after the run. -/
  cycleOffset : later.1.cycleOffset = cpu.cycleOffset

/-- A run does nothing if the cycle counter has passed its bound, and else leads past it. -/
theorem runTo_passes (cpu : Cpu ℚ) (bus : B) (limit : ℚ) :
    let bound := limit + cpu.cycleOffset
    bound < cpu.cycle ∧ cpu.runTo bus limit = (cpu, bus) ∨
      cpu.cycle ≤ bound ∧ cpu.RunsPast bus bound (cpu.runTo bus limit) := by
  intro bound
  have hlate := cpu.lt_cycle_runTo bus limit
  obtain ⟨_, helapsed⟩ := elapsed_runTo cpu bus limit
  obtain ⟨n, hrun, hdue, hafter⟩ := cpu.runTo_eq_rounds bus limit
  simp only [due_rounds_iff] at hdue hafter
  -- A run without rounds is one whose bound had passed; else the last round began before it.
  cases n with
  | zero => exact .inl ⟨not_le.mp hafter, hrun⟩
  | succ n =>
    refine .inr ⟨hdue 0 n.succ_pos, ?_, hlate, ?_, helapsed.cycleOffset⟩
    · refine ⟨n + 1, n.succ_pos, hrun, fun m hm => ⟨?_, hdue m hm⟩⟩
      exact_mod_cast cpu.cycle_add_le_rounds bus m
    · obtain ⟨cycles, -, hle, he⟩ :=
        elapsed_advance (cpu.rounds bus n).1 (cpu.rounds bus n).2
      have hcycles : (cycles : ℚ) ≤ 529 := by exact_mod_cast hle
      have hbegins := hdue n n.lt_succ_self
      rw [hrun, rounds_succ, he.cycle]
      push_cast
      linarith

end Cpu

end Famicom
