import Mathlib.Data.Rat.Floor
import Mathlib.Tactic.Linarith
import Mathlib.Tactic.NormNum
import Mathlib.Tactic.Ring
import Famicom.Console.Schedule
import Famicom.Proofs.Cpu.Rounds

/-!
# Exact time

Over rational numbers no time is rounded, so the guard of a run and the end of a frame are what the
formulas say.

* `due_iff`: a round is due as long as the cycle counter has not passed the limit.
* `OnSchedule`: the counters of a processor whose current frame began at an exact time.
* `OnSchedule.endFrame`: the next frame begins one frame later, if the frame has been run to its
  end.
-/

namespace Famicom

instance : Time ℚ where
  ofNat n := n
  lt a b := a < b
  floor t := ⌊t⌋
  lastUnit? t := if 0 ≤ t then some ⌊t⌋.toNat else none

namespace FrameTime

/-- The exact length of a frame. -/
theorem frameCycles_exact : (frameCycles : ℚ) = 29780.5 := by
  show ((59561 : ℕ) : ℚ) / ((2 : ℕ) : ℚ) = 29780.5
  norm_num

theorem ofDot_exact (line dot : Nat) : (ofDot line dot : ℚ) = (341 * line + dot) / 3 := by
  show ((341 * line + dot : ℕ) : ℚ) / ((3 : ℕ) : ℚ) = _
  push_cast
  rfl

/-- Dots are reached one after the other. -/
theorem ofDot_le_ofDot {line dot line' dot' : Nat}
    (h : 341 * line + dot ≤ 341 * line' + dot') : (ofDot line dot : ℚ) ≤ ofDot line' dot' := by
  rw [ofDot_exact, ofDot_exact]
  have : (341 * line + dot : ℚ) ≤ 341 * line' + dot' := by exact_mod_cast h
  linarith

/-- Every dot of the last line on which something is due lies within the frame. -/
theorem ofDot_le_frameCycles {line dot : Nat} (hline : line ≤ 261) (hdot : dot ≤ 340) :
    (ofDot line dot : ℚ) ≤ frameCycles := by
  rw [ofDot_exact, frameCycles_exact]
  have hl : (line : ℚ) ≤ 261 := by exact_mod_cast hline
  have hd : (dot : ℚ) ≤ 340 := by exact_mod_cast hdot
  linarith

end FrameTime

namespace Cpu

/-- A round is due as long as the cycle counter has not passed the limit. -/
theorem due_iff (cpu : Cpu ℚ) (limit : ℚ) :
    cpu.Due limit ↔ (cpu.cycle : ℚ) ≤ limit + cpu.cycleOffset := by
  have hcycle : (0 : ℚ) ≤ cpu.cycle := Nat.cast_nonneg _
  simp only [Due, lastStart?, Time.lastUnit?]
  split
  · next hlimit =>
    have hfloor : 0 ≤ ⌊limit + cpu.cycleOffset⌋ := Int.floor_nonneg.mpr hlimit
    have hcast := @Int.le_floor ℚ _ _ _ cpu.cycle (limit + cpu.cycleOffset)
    rw [Int.cast_natCast] at hcast
    rw [← hcast]
    constructor
    · rintro ⟨_, h, hle⟩
      cases h
      omega
    · intro hle
      exact ⟨_, rfl, by omega⟩
  · next hlimit =>
    constructor
    · rintro ⟨_, h, -⟩
      cases h
    · intro hle
      exact absurd (hcycle.trans hle) hlimit

/-- Throughout a run, the cycle counter is compared with the same bound. -/
theorem due_rounds_iff {B : Type} [SystemBus B] (cpu : Cpu ℚ) (bus : B) (n : Nat) (limit : ℚ) :
    (cpu.rounds bus n).1.Due limit ↔
      ((cpu.rounds bus n).1.cycle : ℚ) ≤ limit + cpu.cycleOffset := by
  obtain ⟨_, he⟩ := elapsed_rounds cpu bus n
  rw [due_iff, he.cycleOffset]

/-- No round begins after the limit. -/
theorem Begins.le_limit {B : Type} [SystemBus B] {cpu : Cpu ℚ} {bus : B} {limit : ℚ}
    {cycle start : Nat} (h : cpu.Begins bus limit cycle start) :
    (cycle : ℚ) ≤ limit + cpu.cycleOffset := by
  obtain ⟨n, hdue, -, rfl, -⟩ := h
  exact (cpu.due_rounds_iff bus n limit).mp (hdue n (Nat.le_refl n))

/-- After a run no round is due. -/
theorem lt_cycle_runTo {B : Type} [SystemBus B] (cpu : Cpu ℚ) (bus : B) (limit : ℚ) :
    limit + cpu.cycleOffset < (cpu.runTo bus limit).1.cycle := by
  obtain ⟨n, hrun, -, hafter⟩ := cpu.runTo_eq_rounds bus limit
  rw [due_rounds_iff] at hafter
  rw [hrun]
  exact not_le.mp hafter

/-- The counters of a processor whose current frame began `due` cycles after power-on: the frame
counter lacks the whole cycles, and the offset is the rest. -/
structure OnSchedule (cpu : Cpu ℚ) (due : ℚ) : Prop where
  cycleOffset : cpu.cycleOffset = Int.fract due
  cycles : (cpu.totalCycles : ℤ) - cpu.cycle = ⌊due⌋

namespace OnSchedule

variable {cpu later : Cpu ℚ} {due : ℚ}

/-- Time passes on both counters alike. -/
theorem elapsed {n : Nat} (h : cpu.OnSchedule due) (he : Elapsed n cpu later) :
    later.OnSchedule due where
  cycleOffset := he.cycleOffset.trans h.cycleOffset
  cycles := by
    rw [← h.cycles, he.cycle, he.totalCycles]
    push_cast
    ring

/-- The offset and the frame counter together are the time since the frame began. -/
theorem cycle_sub_offset (h : cpu.OnSchedule due) :
    (cpu.cycle : ℚ) - cpu.cycleOffset = cpu.totalCycles - due := by
  have hcycles : (cpu.totalCycles : ℚ) - cpu.cycle = ⌊due⌋ := by exact_mod_cast h.cycles
  rw [h.cycleOffset, Int.fract]
  linarith

/-- The guard of a run compares the cycles since power-on with an exact time. -/
theorem due_iff (h : cpu.OnSchedule due) (limit : ℚ) :
    cpu.Due limit ↔ (cpu.totalCycles : ℚ) ≤ due + limit := by
  have htime := h.cycle_sub_offset
  rw [Cpu.due_iff]
  constructor
  · intro hle
    linarith
  · intro hle
    linarith

/-- The cycles of a frame that has been run to its end suffice for what is taken off. -/
theorem whole_le_cycle (h : cpu.OnSchedule due) {length : ℚ}
    (hend : due + length < cpu.totalCycles) : ⌊cpu.cycleOffset + length⌋ ≤ cpu.cycle := by
  have htime := h.cycle_sub_offset
  have hfloor := Int.floor_le (cpu.cycleOffset + length)
  have hle : ((⌊cpu.cycleOffset + length⌋ : ℤ) : ℚ) ≤ ((cpu.cycle : ℤ) : ℚ) := by
    push_cast
    linarith
  exact_mod_cast hle

/-- The next frame begins one frame later. -/
theorem endFrame (h : cpu.OnSchedule due) {length : ℚ} (hpos : 0 ≤ length)
    (hend : due + length < cpu.totalCycles) : (cpu.endFrame length).OnSchedule (due + length) := by
  have hsplit : cpu.cycleOffset + length = due + length - ⌊due⌋ := by
    rw [h.cycleOffset, Int.fract]
    ring
  have hfloor : ⌊cpu.cycleOffset + length⌋ = ⌊due + length⌋ - ⌊due⌋ := by
    rw [hsplit, Int.floor_sub_intCast]
  have hnonneg : 0 ≤ ⌊cpu.cycleOffset + length⌋ := by
    rw [hfloor]
    have := Int.floor_mono (show due ≤ due + length by linarith)
    omega
  have hle := h.whole_le_cycle hend
  have hunit : Time.lastUnit? ((⌊cpu.cycleOffset + length⌋ : ℤ) : ℚ) =
      some ⌊cpu.cycleOffset + length⌋.toNat := by
    simp only [Time.lastUnit?, Int.floor_intCast]
    rw [if_pos (by exact_mod_cast hnonneg)]
  refine ⟨?_, ?_⟩
  · show cpu.cycleOffset + length - (⌊cpu.cycleOffset + length⌋ : ℤ) = Int.fract (due + length)
    rw [hfloor, hsplit, Int.fract]
    push_cast
    ring
  · show (cpu.totalCycles : ℤ) - ((cpu.cycle - (Time.lastUnit? (Time.floor _)).getD 0 : ℕ) : ℤ) = _
    simp only [Time.floor, hunit, Option.getD_some]
    have hcycles := h.cycles
    omega

/-! ## Runs -/

variable {B : Type} [SystemBus B]

theorem rounds (h : cpu.OnSchedule due) (bus : B) (n : Nat) :
    (cpu.rounds bus n).1.OnSchedule due := by
  obtain ⟨_, he⟩ := elapsed_rounds cpu bus n
  exact h.elapsed he

theorem runTo (h : cpu.OnSchedule due) (bus : B) (limit : ℚ) :
    (cpu.runTo bus limit).1.OnSchedule due := by
  obtain ⟨_, he⟩ := elapsed_runTo cpu bus limit
  exact h.elapsed he

/-- A run passes its limit. -/
theorem lt_totalCycles_runTo (h : cpu.OnSchedule due) (bus : B) (limit : ℚ) :
    due + limit < (cpu.runTo bus limit).1.totalCycles := by
  obtain ⟨_, he⟩ := elapsed_runTo cpu bus limit
  have htime := (h.elapsed he).cycle_sub_offset
  have hlate := cpu.lt_cycle_runTo bus limit
  rw [he.cycleOffset] at htime
  linarith

/-- A run does not pass its limit by more than the last round. -/
theorem totalCycles_runTo_le (h : cpu.OnSchedule due) (bus : B) {limit most : ℚ}
    (hlimit : limit ≤ most) (hmost : cpu.totalCycles ≤ due + most + 529) :
    (cpu.runTo bus limit).1.totalCycles ≤ due + most + 529 := by
  obtain ⟨n, hrun, hbefore, -⟩ := cpu.runTo_eq_rounds bus limit
  rw [hrun]
  cases n with
  | zero => exact hmost
  | succ n =>
    have hdue := ((h.rounds bus n).due_iff limit).mp (hbefore n n.lt_succ_self)
    obtain ⟨cycles, -, hle, he⟩ := elapsed_advance (cpu.rounds bus n).1 (cpu.rounds bus n).2
    have hcycles : (cycles : ℚ) ≤ 529 := by exact_mod_cast hle
    rw [rounds_succ, he.totalCycles]
    push_cast
    linarith

end OnSchedule

end Cpu

end Famicom
