import Famicom.Proofs.Cpu.ExactTime

/-!
# Runs in parts

All that a run does, it does in rounds, and a round begins only if the limit has not passed. So a
run that is broken off at an earlier limit and taken up again makes the rounds of an unbroken one,
and a run whose limit has passed makes none.

* `OrderedTime`: the order of limits is that in which they pass.
* `Cpu.runTo_of_not_due`: a run to a limit that has passed does nothing.
* `Cpu.runTo_runTo`: a run may be broken off at an earlier limit.
-/

namespace Famicom

/-- Time whose order is that in which it passes: of two limits, the one that is not above the other
has not the later last cycle, whatever fraction of a cycle both are put off by. -/
class OrderedTime (T : Type) [Time T] [LE T] : Prop where
  lastUnit?_add_le : ∀ {limit later : T} (offset : T), limit ≤ later →
    Time.lastUnit? (limit + offset) ≤ Time.lastUnit? (later + offset)

/-- Exact time is ordered. -/
instance : OrderedTime ℚ where
  lastUnit?_add_le {limit later} offset h := by
    have hle : limit + offset ≤ later + offset := by linarith
    simp only [Time.lastUnit?]
    split
    · next hpos =>
      rw [if_pos (hpos.trans hle), Option.some_le_some]
      exact Int.toNat_le_toNat (Int.floor_mono hle)
    · exact Option.none_le

namespace Cpu

variable {T B : Type} [SystemBus B]

/-! ## Bounds -/

theorem runThrough_of_lt {cpu : Cpu T} {last : Nat} (h : last < cpu.cycle) (bus : B) :
    cpu.runThrough bus last = (cpu, bus) := by
  rw [runThrough, dif_neg (Nat.not_le.mpr h)]

/-- A run may be broken off at an earlier cycle. -/
theorem runThrough_runThrough (cpu : Cpu T) (bus : B) {last later : Nat} (h : last ≤ later) :
    (cpu.runThrough bus last).1.runThrough (cpu.runThrough bus last).2 later =
      cpu.runThrough bus later := by
  fun_induction runThrough cpu bus last with
  | case1 cpu bus hle next ih =>
    -- the unbroken run makes this round too, since its bound is not earlier
    rw [ih, runThrough.eq_def cpu bus later, dif_pos (hle.trans h)]
  | case2 cpu bus hlt => rfl

/-! ## Limits -/

variable [Time T] {cpu later : Cpu T} {limit other : T}

/-- A round that is not due does not become so by letting time pass. -/
theorem Elapsed.not_due {n : Nat} (h : Elapsed n cpu later) (hpast : ¬ cpu.Due limit) :
    ¬ later.Due limit := by
  rintro ⟨last, hlast, hle⟩
  rw [lastStart?, h.cycleOffset] at hlast
  rw [h.cycle] at hle
  exact hpast ⟨last, hlast, by omega⟩

theorem not_due_runTo (cpu : Cpu T) (bus : B) (limit : T) :
    ¬ (cpu.runTo bus limit).1.Due limit := by
  obtain ⟨n, hrun, -, hafter⟩ := cpu.runTo_eq_rounds bus limit
  rw [hrun]
  exact hafter

/-- A run to a limit before which no cycle begins does nothing. -/
theorem runTo_of_none (h : cpu.lastStart? limit = none) (bus : B) :
    cpu.runTo bus limit = (cpu, bus) := by
  unfold runTo
  rw [h]

theorem runTo_of_some {last : Nat} (h : cpu.lastStart? limit = some last) (bus : B) :
    cpu.runTo bus limit = cpu.runThrough bus last := by
  unfold runTo
  rw [h]

/-- A run to a limit that has passed does nothing. -/
theorem runTo_of_not_due (h : ¬ cpu.Due limit) (bus : B) : cpu.runTo bus limit = (cpu, bus) := by
  cases hlast : cpu.lastStart? limit with
  | none => exact runTo_of_none hlast bus
  | some last =>
    rw [runTo_of_some hlast]
    exact runThrough_of_lt (Nat.lt_of_not_le fun hle => h ⟨last, hlast, hle⟩) bus

variable [LE T] [OrderedTime T]

/-- Of two limits, the one that is not above the other has not the later last cycle. -/
theorem lastStart?_mono (hle : limit ≤ other) {last : Nat} (h : cpu.lastStart? limit = some last) :
    ∃ later, last ≤ later ∧ cpu.lastStart? other = some later := by
  have horder : cpu.lastStart? limit ≤ cpu.lastStart? other :=
    OrderedTime.lastUnit?_add_le cpu.cycleOffset hle
  rw [h] at horder
  cases hother : cpu.lastStart? other with
  | none =>
    rw [hother] at horder
    exact absurd horder Option.not_some_le_none
  | some later =>
    rw [hother, Option.some_le_some] at horder
    exact ⟨later, horder, rfl⟩

/-- A round that is due before a limit is due before every later one. -/
theorem Due.mono (h : cpu.Due limit) (hle : limit ≤ other) : cpu.Due other := by
  obtain ⟨last, hlast, hcycle⟩ := h
  obtain ⟨later, hlater, hother⟩ := lastStart?_mono hle hlast
  exact ⟨later, hother, hcycle.trans hlater⟩

/-- A run may be broken off at an earlier limit. -/
theorem runTo_runTo (cpu : Cpu T) (bus : B) (h : limit ≤ other) :
    (cpu.runTo bus limit).1.runTo (cpu.runTo bus limit).2 other = cpu.runTo bus other := by
  cases hlast : cpu.lastStart? limit with
  | none => rw [runTo_of_none hlast]
  | some last =>
    obtain ⟨later, hle, hother⟩ := lastStart?_mono h hlast
    -- the fraction by which the frame began late is the same when the run is taken up again
    obtain ⟨_, helapsed⟩ := elapsed_runTo cpu bus limit
    have hresumed : (cpu.runTo bus limit).1.lastStart? other = some later := by
      rw [lastStart?, helapsed.cycleOffset]
      exact hother
    rw [runTo_of_some hresumed, runTo_of_some hlast, runTo_of_some hother,
      runThrough_runThrough cpu bus hle]

end Cpu

end Famicom
