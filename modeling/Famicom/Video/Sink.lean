import Famicom.Video.Frame

/-!
# Sinks

A host receives finished frames through a sink.
-/

namespace Famicom

/-- A receiver of finished frames. -/
class VideoSink (S : Type) where
  /-- Take a frame. -/
  present : S → Frame → S

/-- A sink that keeps nothing. -/
structure NullSink where
  deriving DecidableEq, Repr, Inhabited

instance : VideoSink NullSink where
  present sink _ := sink

/-- A sink that counts frames and keeps the last. -/
structure CaptureSink where
  presented : Nat
  last : Option Frame
  deriving DecidableEq

/-- A sink that has received nothing. -/
def CaptureSink.empty : CaptureSink := ⟨0, none⟩

instance : VideoSink CaptureSink where
  present sink frame := { presented := sink.presented + 1, last := some frame }

end Famicom
