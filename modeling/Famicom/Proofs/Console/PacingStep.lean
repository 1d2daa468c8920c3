import Famicom.Proofs.Console.Pacing

/-!
# A step of pacing under every configuration

The threshold of a configuration may be any number, infinities included, and so may the lag below
it. Whole frames are taken off one by one and counted in 32 bits before the limit on catching up is
applied, so a call that finds a lag of more than 2^32 frames fails.

* `settles_tick`: a call that pauses, or finds no more, does all that it should.
* `tick_fails`: any other call fails.
* `tick_settles_iff`: so these are the calls that do what they should.
* `not_settles_patient`: a host that has been away for two years, and a threshold that lets it.
-/

namespace Famicom

namespace Pacer

variable {T : Type} [Time T] {reading : T → ExtendedRat} {frame : ℚ}

/-- What a call should lead to that finds some lag. Beyond the threshold the console pauses, and no
lag is left. If the console is more than a frame ahead, the call is skipped. Otherwise the least
number of frames is taken off that leaves no more than one; of these, as many are dropped as the
limit allows, and the total grows by as many. -/
def Settles (reading : T → ExtendedRat) (pacer : Pacer T) (frame lag : ℚ)
    (result : Except PacingError PaceDecision × Pacer T) : Prop :=
  if reading pacer.timing.pauseThreshold < .finite lag then
    result.1 = .ok .pause ∧ reading result.2.lag = .finite 0 ∧
      result.2.droppedTotal = pacer.droppedTotal
  else if lag < -frame then
    result.1 = .ok .skip ∧ reading result.2.lag = .finite (lag + frame) ∧
      result.2.droppedTotal = pacer.droppedTotal
  else
    ∃ (k : ℕ) (dropped : UInt32), IsLeast {n : ℕ | lag - n * frame ≤ frame} k ∧
      dropped.toNat = min k pacer.timing.maxCatchUp.toNat ∧
      result.1 = .ok (.run dropped) ∧ reading result.2.lag = .finite (lag - k * frame) ∧
      result.2.droppedTotal = pacer.droppedTotal + dropped.toNat

/-- What a call leads to whose count fails: 2^32 frames are off the lag by then, and nothing else
has been noted of them. -/
def Fails (reading : T → ExtendedRat) (pacer : Pacer T) (frame lag : ℚ)
    (result : Except PacingError PaceDecision × Pacer T) : Prop :=
  result.1 = .error .overflow ∧ reading result.2.lag = .finite (lag - UInt32.size * frame) ∧
    result.2.droppedTotal = pacer.droppedTotal

/-! ## A lag -/

section

variable (exact : Time.FinitelyExact reading) (hframe : reading frameMs = .finite frame)
  (hpos : 0 < frame) (pacer : Pacer T) {lag : T} {size : ℚ}
include exact hframe hpos

omit hframe hpos in
theorem pauses_iff (hlag : reading lag = .finite size) :
    Time.lt pacer.timing.pauseThreshold lag = true ↔
      reading pacer.timing.pauseThreshold < .finite size := by
  rw [exact.lt, hlag]

omit hpos in
theorem skips_iff (hlag : reading lag = .finite size) :
    Time.lt lag (-frameMs) = true ↔ size < -frame := by
  rw [exact.lt, hlag, exact.neg hframe, ExtendedRat.finite_lt_finite]

/-- A lag that pauses the console, or is at most 2^32 frames, is settled. -/
theorem settles_decide (hlag : reading lag = .finite size)
    (h : reading pacer.timing.pauseThreshold < .finite size ∨ size ≤ UInt32.size * frame) :
    pacer.Settles reading frame size (pacer.decide lag) := by
  unfold Settles decide
  by_cases hpause : reading pacer.timing.pauseThreshold < .finite size
  · rw [if_pos hpause, if_pos ((pauses_iff exact pacer hlag).mpr hpause)]
    exact ⟨rfl, exact.zero, rfl⟩
  rw [if_neg hpause, if_neg (mt (pauses_iff exact pacer hlag).mp hpause)]
  by_cases hskip : size < -frame
  · rw [if_pos hskip, if_pos ((skips_iff exact hframe hlag).mpr hskip)]
    exact ⟨rfl, exact.add hlag hframe, rfl⟩
  rw [if_neg hskip, if_neg (mt (skips_iff exact hframe hlag).mp hskip)]
  have hfits := (framesIn_lt_size_iff hpos size).mpr (h.resolve_left hpause)
  obtain ⟨rest, htake, hrest⟩ := wholeFrames_of_lt exact hframe hpos hlag hfits
  rw [htake]
  refine ⟨framesIn frame size, _, isLeast_framesIn hpos, ?_, rfl, hrest, rfl⟩
  have hnumber : (UInt32.ofNat (framesIn frame size)).toNat = framesIn frame size :=
    UInt32.toNat_ofNat_of_lt' hfits
  split
  · next hle =>
    rw [UInt32.le_iff_toNat_le, hnumber] at hle
    rw [hnumber]
    exact (min_eq_left hle).symm
  · next hle =>
    rw [UInt32.le_iff_toNat_le, hnumber] at hle
    exact (min_eq_right (not_le.mp hle).le).symm

/-- At any other lag, the count fails. -/
theorem decide_fails (hlag : reading lag = .finite size)
    (hpause : ¬ reading pacer.timing.pauseThreshold < .finite size)
    (hmore : UInt32.size * frame < size) :
    pacer.Fails reading frame size (pacer.decide lag) := by
  have hskip : ¬ size < -frame := by
    have hlong : 0 < (UInt32.size : ℚ) * frame := mul_pos (by norm_num) hpos
    linarith
  have hcount : UInt32.size ≤ framesIn frame size :=
    not_lt.mp (mt (framesIn_lt_size_iff hpos size).mp (not_le.mpr hmore))
  obtain ⟨rest, htake, hrest⟩ := wholeFrames_of_le exact hframe hpos hlag hcount
  unfold decide
  rw [if_neg (mt (pauses_iff exact pacer hlag).mp hpause),
    if_neg (mt (skips_iff exact hframe hlag).mp hskip), htake]
  exact ⟨rfl, hrest, rfl⟩

end

/-! ## A call -/

section

variable (exact : Time.FinitelyExact reading) (hframe : reading frameMs = .finite frame)
  (hpos : 0 < frame) (pacer : Pacer T) {last now : T} {start time old : ℚ}
  (hlast? : pacer.last? = some last) (hlast : reading last = .finite start)
  (hnow : reading now = .finite time) (hold : reading pacer.lag = .finite old)
include exact hframe hlast? hlast hnow hold

/-- A call that follows another decides about the lag that it finds. -/
theorem tick_eq_decide :
    ∃ lag, reading lag = .finite (old + (time - start - frame)) ∧
      pacer.tick now = { pacer with last? := some now }.decide lag := by
  refine ⟨pacer.lag + (now - last - frameMs), ?_, ?_⟩
  · exact exact.add hold (exact.sub (exact.sub hnow hlast) hframe)
  · unfold tick
    rw [hlast?]

include hpos

/-- A call that pauses the console, or finds at most 2^32 frames of lag, does all that it should. -/
theorem settles_tick
    (h : reading pacer.timing.pauseThreshold < .finite (old + (time - start - frame)) ∨
      old + (time - start - frame) ≤ UInt32.size * frame) :
    pacer.Settles reading frame (old + (time - start - frame)) (pacer.tick now) := by
  obtain ⟨lag, hlag, htick⟩ := pacer.tick_eq_decide exact hframe hlast? hlast hnow hold
  rw [htick]
  exact { pacer with last? := some now }.settles_decide exact hframe hpos hlag h

/-- Any other call fails. -/
theorem tick_fails
    (hpause : ¬ reading pacer.timing.pauseThreshold < .finite (old + (time - start - frame)))
    (hmore : UInt32.size * frame < old + (time - start - frame)) :
    pacer.Fails reading frame (old + (time - start - frame)) (pacer.tick now) := by
  obtain ⟨lag, hlag, htick⟩ := pacer.tick_eq_decide exact hframe hlast? hlast hnow hold
  rw [htick]
  exact { pacer with last? := some now }.decide_fails exact hframe hpos hlag hpause hmore

end

omit [Time T] in
/-- What fails does not do what it should. -/
theorem Settles.not_fails {pacer : Pacer T} {lag : ℚ}
    {result : Except PacingError PaceDecision × Pacer T}
    (h : pacer.Settles reading frame lag result) : ¬ pacer.Fails reading frame lag result := by
  rintro ⟨herror, -⟩
  unfold Settles at h
  rw [herror] at h
  split at h
  · cases h.1
  split at h
  · cases h.1
  · obtain ⟨k, dropped, -, -, hrun, -⟩ := h
    cases hrun

/-- A call that follows another ends, whatever the threshold and the limit, and does all that it
should exactly if the console pauses or the lag is at most 2^32 frames. Any other call fails. -/
theorem tick_settles_iff (exact : Time.FinitelyExact reading)
    (hframe : reading frameMs = .finite frame) (hpos : 0 < frame) (pacer : Pacer T) {last now : T}
    {start time old : ℚ} (hlast? : pacer.last? = some last) (hlast : reading last = .finite start)
    (hnow : reading now = .finite time) (hold : reading pacer.lag = .finite old) :
    let lag := old + (time - start - frame)
    (pacer.Settles reading frame lag (pacer.tick now) ↔
        reading pacer.timing.pauseThreshold < .finite lag ∨ lag ≤ UInt32.size * frame) ∧
      (pacer.Settles reading frame lag (pacer.tick now) ∨
        pacer.Fails reading frame lag (pacer.tick now)) := by
  intro lag
  have hsettles := pacer.settles_tick exact hframe hpos hlast? hlast hnow hold
  by_cases h : reading pacer.timing.pauseThreshold < .finite lag ∨ lag ≤ UInt32.size * frame
  · exact ⟨iff_of_true (hsettles h) h, .inl (hsettles h)⟩
  · obtain ⟨hpause, hmore⟩ := not_or.mp h
    have hfails := pacer.tick_fails exact hframe hpos hlast? hlast hnow hold hpause
      (not_le.mp hmore)
    exact ⟨iff_of_false (fun hsettled => hsettled.not_fails hfails) h, .inr hfails⟩

end Pacer

/-! ## An infinite threshold -/

namespace ExtendedRat

/-- The opposite. -/
def neg : ExtendedRat → ExtendedRat
  | finite a => finite (-a)
  | infinite negative => infinite !negative
  | undefined => undefined

/-- The sum; two opposite infinities have none. -/
def add : ExtendedRat → ExtendedRat → ExtendedRat
  | finite a, finite b => finite (a + b)
  | infinite s, finite _ | finite _, infinite s => infinite s
  | infinite s, infinite t => if s = t then infinite s else undefined
  | _, _ => undefined

/-- The quotient; a zero has no sign. -/
def div : ExtendedRat → ExtendedRat → ExtendedRat
  | finite a, finite b =>
    if b ≠ 0 then finite (a / b) else if a = 0 then undefined else infinite (a < 0)
  | finite _, infinite _ => finite 0
  | infinite s, finite b => infinite (s != decide (b < 0))
  | _, _ => undefined

instance : Time ExtendedRat where
  add := add
  sub a b := a.add b.neg
  neg := neg
  div := div
  ofNat n := finite n
  lt := before
  floor
    | finite a => finite ⌊a⌋
    | a => a
  lastUnit?
    | finite a => if 0 ≤ a then some ⌊a⌋.toNat else none
    | infinite false => some (UInt64.size - 1)
    | _ => none

/-- Such times stand for themselves. -/
theorem finitelyExact : Time.FinitelyExact fun t : ExtendedRat => t where
  zero := congrArg finite Nat.cast_zero
  add ha hb := by rw [ha, hb]; rfl
  sub ha hb := by rw [ha, hb, sub_eq_add_neg]; rfl
  neg ha := by rw [ha]; rfl
  lt _ _ := Iff.rfl

end ExtendedRat

namespace Pacer

/-- A pacer that never pauses, called for the first time. -/
def tireless : Pacer ExtendedRat :=
  ((new { standard := .ntsc, pauseThreshold := .infinite false, maxCatchUp := 3 }).tick
    (.finite 0)).2

/-- It takes all of a second off, and drops three frames. -/
theorem tick_settles_tireless :
    let lag : ℚ := 0 + (1000 - 0 - 50 / 3)
    tireless.Settles (fun t => t) (50 / 3) lag (tireless.tick (.finite 1000)) ∧
      ¬ ExtendedRat.infinite false < .finite lag ∧ lag ≤ UInt32.size * (50 / 3) := by
  have hframe : (frameMs : ExtendedRat) = .finite (50 / 3) := by decide +kernel
  have hlag : ((0 : ℚ) + (1000 - 0 - 50 / 3)) ≤ UInt32.size * (50 / 3) := by norm_num
  have hlast : tireless.last? = some (.finite 0) := rfl
  have hnow : ExtendedRat.finite 1000 = .finite 1000 := rfl
  obtain ⟨hiff, -⟩ := tick_settles_iff ExtendedRat.finitelyExact hframe (by norm_num) tireless
    hlast rfl hnow ExtendedRat.finitelyExact.zero
  exact ⟨hiff.mpr (.inr hlag), by decide, hlag⟩

/-! ## A count that fails -/

/-- A pacer that pauses after thousands of years, called for the first time. -/
def patient : Pacer ℚ :=
  (tick (T := ℚ)
    (new { standard := .ntsc, pauseThreshold := 1000000000000000, maxCatchUp := 1000000 }) 0).2

/-- Over two years later it has 4294979998 frames to take off, of which it should drop a million. It
fails. -/
theorem not_settles_patient :
    let lag : ℚ := 0 + (71583000000 - 0 - 50 / 3)
    framesIn (50 / 3) lag = 4294979998 ∧
      (patient.tick 71583000000).1 = .error .overflow ∧
      ¬ patient.Settles .finite (50 / 3) lag (patient.tick 71583000000) := by
  intro lag
  have hframe : (frameMs : ℚ) = 50 / 3 := by decide +kernel
  have hpos : (0 : ℚ) < 50 / 3 := by norm_num
  have hframes : framesIn (50 / 3) lag = 4294979998 := by decide +kernel
  have hlast : patient.last? = some 0 := rfl
  have hnow : ExtendedRat.finite 71583000000 = .finite 71583000000 := rfl
  have hpause : ¬ ExtendedRat.finite patient.timing.pauseThreshold < .finite lag := by
    decide +kernel
  have hmore : UInt32.size * (50 / 3) < lag := by
    norm_num [lag]
  have hfails := tick_fails Time.exact_rat.finitelyExact (congrArg _ hframe) hpos patient
    hlast rfl hnow (congrArg _ Time.exact_rat.zero) hpause hmore
  exact ⟨hframes, hfails.1, fun hsettles => hsettles.not_fails hfails⟩

end Pacer

end Famicom
