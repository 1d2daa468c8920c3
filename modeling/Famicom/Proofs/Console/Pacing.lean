import Famicom.Proofs.Console.WholeFrames
import Famicom.Proofs.Cpu.ExactTime

/-!
# Pacing over exact time

The pacer adds, subtracts and compares times. Where this is exact, its lag is an account of time:
the time that has passed for the host, less a frame for each that has been asked for.

* `wholeFrames_spec`: the frames taken off a lag are the least number that leaves no more than one.
* `InStep.tick`: a call of the host that does not pause the console succeeds and keeps the account,
  and the console within a frame of the host.
* `lag_ticks`: so do calls without end, if the threshold leaves no lag that cannot be caught up.
-/

namespace Famicom

/-- Times that stand for rational numbers, with which they are computed exactly. What number a
literal stands for is left open, so that a frame may last any time. -/
structure Time.Exact {T : Type} [Time T] (value : T → ℚ) : Prop where
  zero : value Time.zero = 0
  add : ∀ a b : T, value (a + b) = value a + value b
  sub : ∀ a b : T, value (a - b) = value a - value b
  neg : ∀ a : T, value (-a) = -value a
  div : ∀ a b : T, value (a / b) = value a / value b
  lt : ∀ a b : T, Time.lt a b = true ↔ value a < value b
  lastUnit? : ∀ a : T, Time.lastUnit? a = if 0 ≤ value a then some ⌊value a⌋.toNat else none

/-- Rational numbers stand for themselves. -/
theorem Time.exact_rat : Time.Exact fun t : ℚ => t where
  zero := Nat.cast_zero
  add _ _ := rfl
  sub _ _ := rfl
  neg _ := rfl
  div _ _ := rfl
  lt _ _ := decide_eq_true_iff
  lastUnit? _ := rfl

/-- Times that all stand for numbers. -/
theorem Time.Exact.finitelyExact {T : Type} [Time T] {value : T → ℚ} (exact : Time.Exact value) :
    Time.FinitelyExact fun t => .finite (value t) where
  zero := congrArg _ exact.zero
  add ha hb := by cases ha; cases hb; exact congrArg _ (exact.add _ _)
  sub ha hb := by cases ha; cases hb; exact congrArg _ (exact.sub _ _)
  neg ha := by cases ha; exact congrArg _ (exact.neg _)
  lt a b := (exact.lt a b).trans ExtendedRat.finite_lt_finite.symm

/-- The frames that a decision asks for. -/
def PaceDecision.frames : PaceDecision → ℕ
  | .run dropped => dropped.toNat + 1
  | .skip | .pause => 0

namespace Pacer

/-- What comes of some calls, one after the other. -/
def ticks {T : Type} [Time T] (pacer : Pacer T) :
    List T → List (Except PacingError PaceDecision) × Pacer T
  | [] => ([], pacer)
  | now :: rest =>
    let (result, pacer) := pacer.tick now
    let (results, pacer) := pacer.ticks rest
    (result :: results, pacer)

variable {T : Type} [Time T] {value : T → ℚ}

/-! ## Whole frames -/

/-- A lag that is no more than a frame after `most` frames have been taken off has no more of them
to take off, so they can be counted and none is lost to the limit. They are the least number that
leaves no more than one frame. -/
theorem wholeFrames_spec (exact : Time.Exact value) (hframe : 0 < value (frameMs : T)) {lag : T}
    {most : UInt32} (hlag : value lag ≤ (most.toNat + 1) * value (frameMs : T)) :
    ∃ frames rest, wholeFrames lag = (.ok frames, rest) ∧ frames ≤ most ∧
      value rest = value lag - frames.toNat * value (frameMs : T) ∧
      (∀ j < frames.toNat, value (frameMs : T) < value lag - j * value (frameMs : T)) ∧
      value rest ≤ value (frameMs : T) := by
  have hk : framesIn (value (frameMs : T)) (value lag) ≤ most.toNat := by
    rw [framesIn_le_iff hframe]
    linarith
  have hread : ExtendedRat.finite (value lag) = .finite (value lag) := rfl
  obtain ⟨rest, htake, hrest⟩ := wholeFrames_of_lt exact.finitelyExact rfl hframe hread
    (hk.trans_lt most.toNat_lt)
  have hvalue := ExtendedRat.finite.inj hrest
  have htoNat : (UInt32.ofNat (framesIn (value (frameMs : T)) (value lag))).toNat =
      framesIn (value (frameMs : T)) (value lag) :=
    UInt32.toNat_ofNat_of_lt' (hk.trans_lt most.toNat_lt)
  refine ⟨_, rest, htake, ?_, ?_, ?_, ?_⟩
  · rw [UInt32.le_iff_toNat_le, htoNat]
    exact hk
  · rw [htoNat]
    exact hvalue
  · intro j hj
    rw [htoNat] at hj
    by_contra hshort
    exact absurd ((framesIn_le_iff hframe j).mpr (not_lt.mp hshort)) (by omega)
  · rw [hvalue]
    exact (framesIn_le_iff hframe _).mp le_rfl

/-! ## Decisions -/

/-- A lag that does not pause the console leads to a decision, which changes it by the frames that
it asks for, and leaves no more than a frame of it on either side. -/
theorem lag_decide (exact : Time.Exact value) (hframe : 0 < value (frameMs : T)) (pacer : Pacer T)
    (hthreshold : value pacer.timing.pauseThreshold ≤
      (pacer.timing.maxCatchUp.toNat + 1) * value (frameMs : T))
    {lag : T} (hlag : -(2 * value (frameMs : T)) ≤ value lag)
    (hrun : (pacer.decide lag).1 ≠ .ok .pause) :
    ∃ decision, (pacer.decide lag).1 = .ok decision ∧
      value (pacer.decide lag).2.lag =
        value lag + value (frameMs : T) - decision.frames * value (frameMs : T) ∧
      -value (frameMs : T) ≤ value (pacer.decide lag).2.lag ∧
      value (pacer.decide lag).2.lag ≤ value (frameMs : T) := by
  unfold decide at hrun ⊢
  by_cases hpause : Time.lt pacer.timing.pauseThreshold lag = true
  · simp [hpause] at hrun
  rw [if_neg hpause]
  rw [exact.lt, not_lt] at hpause
  by_cases hahead : Time.lt lag (-frameMs) = true
  · rw [if_pos hahead]
    rw [exact.lt, exact.neg] at hahead
    refine ⟨.skip, rfl, ?_⟩
    simp only [exact.add, PaceDecision.frames]
    push_cast
    refine ⟨by ring, by linarith, by linarith⟩
  · rw [if_neg hahead]
    rw [exact.lt, exact.neg, not_lt] at hahead
    obtain ⟨frames, rest, htake, hmost, hvalue, hbefore, hafter⟩ :=
      wholeFrames_spec exact hframe (hpause.trans hthreshold)
    rw [htake]
    refine ⟨.run frames, by simp only [if_pos hmost], ?_, ?_, hafter⟩
    · show value rest = _
      rw [hvalue, PaceDecision.frames]
      push_cast
      ring
    · show _ ≤ value rest
      rw [hvalue]
      cases hcount : frames.toNat with
      | zero => simpa using hahead
      | succ k =>
        -- More than a frame was left before the last one was taken off.
        have hlast := hbefore k (by omega)
        push_cast
        linarith

/-! ## Calls -/

variable {pacer : Pacer T}

/-- Since the first call, at `start`, the last of the calls was at `now`, and `frames` frames have
been asked for after the first call: the lag is the time for which none has been asked, and it is at
most a frame. -/
structure InStep (value : T → ℚ) (pacer : Pacer T) (start now : T) (frames : ℕ) : Prop where
  last? : pacer.last? = some now
  lag : value pacer.lag = value now - value start - frames * value (frameMs : T)
  neg_le_lag : -value (frameMs : T) ≤ value pacer.lag
  lag_le : value pacer.lag ≤ value (frameMs : T)

/-- The first call asks for a frame, and the account begins. -/
theorem inStep_first (exact : Time.Exact value) (hframe : 0 < value (frameMs : T))
    (pacer : Pacer T) (start : T) : (pacer.resume.tick start).2.InStep value start start 0 where
  last? := rfl
  lag := by
    show value Time.zero = _
    rw [exact.zero]
    push_cast
    ring
  neg_le_lag := by
    show _ ≤ value Time.zero
    rw [exact.zero]
    linarith
  lag_le := by
    show value Time.zero ≤ _
    rw [exact.zero]
    exact hframe.le

/-- A decision changes neither the configuration nor the timestamp. -/
theorem decide_keeps (pacer : Pacer T) (lag : T) :
    (pacer.decide lag).2.timing = pacer.timing ∧ (pacer.decide lag).2.last? = pacer.last? := by
  unfold decide
  split
  · exact ⟨rfl, rfl⟩
  split
  · exact ⟨rfl, rfl⟩
  split <;> exact ⟨rfl, rfl⟩

theorem timing_tick (pacer : Pacer T) (now : T) : (pacer.tick now).2.timing = pacer.timing := by
  unfold tick
  cases pacer.last? with
  | none => rfl
  | some last =>
    exact (decide_keeps _ _).1

/-- A later call that does not pause leads to a decision and keeps the account. -/
theorem InStep.tick (exact : Time.Exact value) (hframe : 0 < value (frameMs : T))
    (hthreshold : value pacer.timing.pauseThreshold ≤
      (pacer.timing.maxCatchUp.toNat + 1) * value (frameMs : T))
    {start last now : T} {frames : ℕ} (h : pacer.InStep value start last frames)
    (hlater : value last ≤ value now) (hrun : (pacer.tick now).1 ≠ .ok .pause) :
    ∃ decision, (pacer.tick now).1 = .ok decision ∧
      (pacer.tick now).2.InStep value start now (frames + decision.frames) := by
  have htick : pacer.tick now =
      { pacer with last? := some now }.decide (pacer.lag + (now - last - frameMs)) := by
    unfold Pacer.tick
    rw [h.last?]
  have hlag : value (pacer.lag + (now - last - frameMs)) =
      value now - value start - frames * value (frameMs : T) - value (frameMs : T) := by
    rw [exact.add, exact.sub, exact.sub, h.lag]
    ring
  have hpassed := h.neg_le_lag
  have hlag' : -(2 * value (frameMs : T)) ≤ value (pacer.lag + (now - last - frameMs)) := by
    rw [exact.add, exact.sub, exact.sub]
    linarith
  rw [htick] at hrun ⊢
  obtain ⟨decision, hdecision, hnext, hlow, hhigh⟩ :=
    lag_decide exact hframe { pacer with last? := some now } hthreshold hlag' hrun
  refine ⟨decision, hdecision, (decide_keeps _ _).2, ?_, hlow, hhigh⟩
  rw [hnext, hlag]
  push_cast
  ring

/-- Calls that do not pause lead to decisions and keep the account, one after the other. -/
theorem InStep.ticks (exact : Time.Exact value) (hframe : 0 < value (frameMs : T))
    (hthreshold : value pacer.timing.pauseThreshold ≤
      (pacer.timing.maxCatchUp.toNat + 1) * value (frameMs : T))
    {start last : T} {frames : ℕ} (h : pacer.InStep value start last frames) {times : List T}
    (hsorted : (last :: times).Pairwise fun a b => value a ≤ value b)
    (hrun : .ok .pause ∉ (pacer.ticks times).1) :
    ∃ decisions : List PaceDecision, (pacer.ticks times).1 = decisions.map .ok ∧
      (pacer.ticks times).2.InStep value start (times.getLastD last)
        (frames + (decisions.map PaceDecision.frames).sum) := by
  induction times generalizing pacer last frames with
  | nil => exact ⟨[], rfl, h⟩
  | cons now rest ih =>
    obtain ⟨hfirst, hrest⟩ := List.pairwise_cons.mp hsorted
    simp only [Pacer.ticks, List.mem_cons, not_or] at hrun
    obtain ⟨hnow, hlater⟩ := hrun
    obtain ⟨decision, hdecision, hnext⟩ :=
      h.tick exact hframe hthreshold (hfirst now (List.mem_cons_self ..)) (Ne.symm hnow)
    rw [← timing_tick pacer now] at hthreshold
    obtain ⟨decisions, hdecisions, hall⟩ := ih hthreshold hnext hrest hlater
    refine ⟨decision :: decisions, ?_, ?_⟩
    · simp only [Pacer.ticks, hdecision, hdecisions, List.map_cons]
    · simp only [Pacer.ticks, List.map_cons, List.sum_cons, ← Nat.add_assoc]
      rw [List.getLastD_cons]
      exact hall

/-- Pacing conserves time. Let a frame last any time at all, and let the threshold leave no lag that
cannot be caught up with. However irregular the calls are that follow the first call of a pacer
which has been created or resumed, as long as none of them pauses the console, none of them fails,
and the lag is exactly the time that has passed since the first call, less the frames that the later
ones have asked for. It never leaves the duration of a frame on either side. -/
theorem lag_ticks (exact : Time.Exact value) (hframe : 0 < value (frameMs : T)) (pacer : Pacer T)
    (hthreshold : value pacer.timing.pauseThreshold ≤
      (pacer.timing.maxCatchUp.toNat + 1) * value (frameMs : T))
    (start : T) (times : List T)
    (hsorted : (start :: times).Pairwise fun a b => value a ≤ value b)
    (hrun : .ok .pause ∉ ((pacer.resume.tick start).2.ticks times).1) :
    let (results, later) := (pacer.resume.tick start).2.ticks times
    ∃ decisions : List PaceDecision, results = decisions.map .ok ∧
      let frames := (decisions.map PaceDecision.frames).sum
      value later.lag =
          value (times.getLastD start) - value start - frames * value (frameMs : T) ∧
        -value (frameMs : T) ≤ value later.lag ∧ value later.lag ≤ value (frameMs : T) := by
  have hfirst := inStep_first exact hframe pacer start
  have hthreshold' : value (pacer.resume.tick start).2.timing.pauseThreshold ≤
      ((pacer.resume.tick start).2.timing.maxCatchUp.toNat + 1) * value (frameMs : T) :=
    hthreshold
  obtain ⟨decisions, hdecisions, hall⟩ := hfirst.ticks exact hframe hthreshold' hsorted hrun
  rw [Nat.zero_add] at hall
  exact ⟨decisions, hdecisions, hall.lag, hall.neg_le_lag, hall.lag_le⟩

/-- A pacer that catches up with two frames and pauses when there are more. -/
def strict : Pacer ℚ := .new { standard := .ntsc, pauseThreshold := 50, maxCatchUp := 2 }

/-- An unsteady host: two calls in quick succession, one that is skipped, one that comes late. -/
theorem lag_ticks_strict :
    let calls := (strict.resume.tick 1000).2.ticks [1016, 1017, 1024, 1094]
    calls.1 = [.ok (.run 0), .ok (.run 0), .ok .skip, .ok (.run 2)] ∧
      calls.2.lag = 1094 - 1000 - 5 * frameMs ∧ -frameMs ≤ calls.2.lag ∧
        calls.2.lag ≤ frameMs := by
  have hframe : (0 : ℚ) < frameMs := by decide +kernel
  have hthreshold : strict.timing.pauseThreshold ≤
      ((strict.timing.maxCatchUp.toNat : ℚ) + 1) * frameMs := by decide +kernel
  have hresults : ((strict.resume.tick 1000).2.ticks [1016, 1017, 1024, 1094]).1 =
      [.ok (.run 0), .ok (.run 0), .ok .skip, .ok (.run 2)] := by decide +kernel
  have hrun : .ok .pause ∉ ((strict.resume.tick 1000).2.ticks [1016, 1017, 1024, 1094]).1 := by
    rw [hresults]
    decide
  obtain ⟨decisions, hdecisions, hlag⟩ := lag_ticks Time.exact_rat hframe strict hthreshold 1000
    [1016, 1017, 1024, 1094] (by decide +kernel) hrun
  have hlist : decisions = [.run 0, .run 0, .skip, .run 2] := by
    refine List.map_injective_iff.mpr (fun _ _ => Except.ok.inj) (hdecisions.symm.trans hresults)
  rw [hlist] at hlag
  exact ⟨hresults, hlag⟩

end Pacer

end Famicom
