import Famicom.Console.Config

/-!
# Pacing

The host calls with a timestamp, about once for each refresh of its display. The pacer keeps the
lag of emulated time behind the host's and decides what to run: nothing if the console is ahead, a
painted frame otherwise, and before it as many unpainted frames as the lag holds, up to a limit. A
lag beyond the threshold pauses the console instead. A call fails if it finds more frames than 32
bits can count; what it has done to the lag by then remains.
-/

namespace Famicom

/-- What to run for a call of the host. -/
inductive PaceDecision where
  /-- The console is ahead: nothing. -/
  | skip
  /-- The lag is too large: nothing, and the console pauses. -/
  | pause
  /-- Some frames without painting, then a painted one. -/
  | run (dropped : UInt32)
  deriving DecidableEq, Repr

/-- Why a call fails. -/
inductive PacingError where
  /-- A sum is more than its 32 bits can hold. -/
  | overflow
  deriving DecidableEq, Repr

/-- The text for the host. -/
def PacingError.message : PacingError → String
  | .overflow => "attempt to add with overflow"

/-- The state of the pacing. -/
structure Pacer (T : Type) where
  /-- The timestamp of the last call, if there was one since pacing began. -/
  last? : Option T
  /-- The lag in milliseconds; negative if the console is ahead. -/
  lag : T
  timing : Timing T
  /-- Frames dropped so far. -/
  droppedTotal : Nat

namespace Pacer

variable {T : Type} [Time T]

/-- The duration of a frame in milliseconds: sixty to the second. -/
def frameMs : T := Time.ratio 1000 60

/-- A pacer that has not been called. -/
def new (timing : Timing T) : Pacer T where
  last? := none
  lag := Time.zero
  timing := timing
  droppedTotal := 0

/-- Begin anew with the next call, so that the time until then is not caught up. -/
def resume (pacer : Pacer T) : Pacer T := { pacer with last? := none, lag := Time.zero }

/-- A count that is not the last one goes on by one. -/
theorem toNat_succ {count : UInt32} (h : count ≠ 0xFFFFFFFF) :
    (count + 1).toNat = count.toNat + 1 := by
  have hlt := count.toNat_lt
  have hne : count.toNat ≠ 0xFFFFFFFF := fun heq => h (UInt32.toNat_inj.mp heq)
  rw [UInt32.toNat_add]
  simp only [UInt32.reduceToNat]
  omega

/-- Take whole frames off a lag while it is longer than a frame, counting them. -/
def takeFrames (lag : T) (count : UInt32) : Except PacingError UInt32 × T :=
  if Time.lt frameMs lag then
    if h : count = 0xFFFFFFFF then (.error .overflow, lag - frameMs)
    else takeFrames (lag - frameMs) (count + 1)
  else (.ok count, lag)
termination_by 0x100000000 - count.toNat
decreasing_by
  have hlt := count.toNat_lt
  rw [toNat_succ h]
  omega

/-- Take all whole frames off a lag, and count them. -/
def wholeFrames (lag : T) : Except PacingError UInt32 × T := takeFrames lag 0

/-- What to do about a lag. -/
def decide (pacer : Pacer T) (lag : T) : Except PacingError PaceDecision × Pacer T :=
  if Time.lt pacer.timing.pauseThreshold lag then (.ok .pause, { pacer with lag := Time.zero })
  else if Time.lt lag (-frameMs) then (.ok .skip, { pacer with lag := lag + frameMs })
  else
    match wholeFrames lag with
    | (.error error, lag) => (.error error, { pacer with lag })
    | (.ok frames, lag) =>
      let dropped := if frames ≤ pacer.timing.maxCatchUp then frames else pacer.timing.maxCatchUp
      (.ok (.run dropped), { pacer with lag, droppedTotal := pacer.droppedTotal + dropped.toNat })

/-- What to run for a call at a time. -/
def tick (pacer : Pacer T) (now : T) : Except PacingError PaceDecision × Pacer T :=
  match pacer.last? with
  | none => (.ok (.run 0), { pacer with last? := some now })
  | some last =>
    let lag := pacer.lag + (now - last - frameMs)
    { pacer with last? := some now }.decide lag

end Pacer

end Famicom
