/-!
# Errors of the video output

Coordinates and buffers come from the host, so they are checked. `VideoError.message` is the text
that a host shows; a sprite line that is read beyond its end has none.
-/

namespace Famicom

/-- Why video output is refused. -/
inductive VideoError where
  /-- The column is not on the screen. -/
  | column (x : Nat)
  /-- The line is not on the screen. -/
  | line (y : Nat)
  /-- The column is not on the sprite line. -/
  | spriteLine
  /-- The buffer does not hold a frame. -/
  | buffer
  deriving DecidableEq, Repr

/-- The text for the host. -/
def VideoError.message : VideoError → Option String
  | .column x => some s!"X coordinate {x} out of bounds"
  | .line y => some s!"Y coordinate {y} out of bounds"
  | .spriteLine => none
  | .buffer => some "Output buffer too small for RGBA conversion"

/-- An attempt of the host on a state. Where it is refused, what it has done to the state by then
remains. -/
abbrev VideoAttempt (S : Type) := ExceptT VideoError (StateM S)

/-- Make an attempt on a state: what comes of it, and the state that it leaves. -/
def VideoAttempt.on {S α : Type} (attempt : VideoAttempt S α) (state : S) :
    Except VideoError α × S :=
  attempt.run.run state

end Famicom
