import Famicom.Cpu.Basic
import Famicom.Video.Standard

/-!
# Configuration

What a host may choose: how frames are paced, which video standard the console is made for, and
what an opcode leads to that stops the processor.
-/

namespace Famicom

/-- Timing and pacing; times are in milliseconds. -/
structure Timing (T : Type) where
  standard : VideoStandard
  /-- The lag beyond which the console pauses instead of catching up. -/
  pauseThreshold : T
  /-- The most frames that one step of pacing drops. -/
  maxCatchUp : UInt32
  deriving DecidableEq, BEq, Repr

/-- The configuration of a console. -/
structure Config (T : Type) where
  timing : Timing T
  jam : JamBehavior
  deriving DecidableEq, BEq, Repr

variable {T : Type} [Time T]

/-- Two seconds of lag, two seconds of frames to drop. -/
def Timing.default : Timing T where
  standard := .ntsc
  pauseThreshold := Time.ofNat 2000
  maxCatchUp := 120

/-- The configuration of a host that chooses nothing. -/
def Config.default : Config T where
  timing := .default
  jam := .reset

end Famicom
