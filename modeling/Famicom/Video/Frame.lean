import Famicom.Video.Error
import Famicom.Video.Palette

/-!
# Frames

A frame is 240 lines of 256 pixels, line by line. A pixel is a word: the colour number in six bits
and the emphasis in three above them. Accesses take a column and a line that are on the screen;
those that end in a question mark check what a host passes, the column first.
-/

namespace Famicom

/-- A pixel word: the colour number and the emphasis above it. -/
@[inline] def pixelWord (color emphasis : UInt8) : UInt16 :=
  0x40 * (emphasis % 8).toUInt16 + (color % 0x40).toUInt16

/-- A picture of 240 lines. -/
structure Frame where
  words : Vector UInt16 61440
  deriving DecidableEq

namespace Frame

/-- A frame in one colour, without emphasis. -/
def uniform (color : UInt8) : Frame := ⟨Vector.replicate 61440 (pixelWord color 0)⟩

/-- The frame before anything has been drawn. -/
def black : Frame := uniform 0x0F

/-- The place of a pixel among the words. -/
@[inline] def position (x : Fin 256) (y : Fin 240) : Fin 61440 := ⟨256 * y + x, by omega⟩

/-- The word at a column and a line. -/
@[inline] def word (frame : Frame) (x : Fin 256) (y : Fin 240) : UInt16 :=
  frame.words.get (position x y)

/-- Draw a pixel. -/
@[inline] def setPixel (frame : Frame) (x : Fin 256) (y : Fin 240) (color emphasis : UInt8) :
    Frame :=
  ⟨frame.words.set (position x y) (pixelWord color emphasis)⟩

/-- The colour number at a column and a line. -/
def color (frame : Frame) (x : Fin 256) (y : Fin 240) : UInt8 := (frame.word x y % 0x40).toUInt8

/-- The emphasis at a column and a line. -/
def emphasis (frame : Frame) (x : Fin 256) (y : Fin 240) : UInt8 := (frame.word x y / 0x40).toUInt8

/-- The column and the line, if they are on the screen. -/
def locate? (x y : Nat) : Except VideoError (Fin 256 × Fin 240) :=
  if hx : x < 256 then
    if hy : y < 240 then .ok (⟨x, hx⟩, ⟨y, hy⟩) else .error (.line y)
  else .error (.column x)

/-- Draw a pixel where a host asks for it. -/
def setPixel? (x y : Nat) (color emphasis : UInt8) : VideoAttempt Frame Unit := do
  let (x, y) ← locate? x y
  modify fun frame => frame.setPixel x y color emphasis

/-- The colour number where a host asks for it. -/
def color? (frame : Frame) (x y : Nat) : Except VideoError UInt8 :=
  (locate? x y).map fun (x, y) => frame.color x y

/-- The emphasis where a host asks for it. -/
def emphasis? (frame : Frame) (x y : Nat) : Except VideoError UInt8 :=
  (locate? x y).map fun (x, y) => frame.emphasis x y

/-- The displayed colour of a pixel word. -/
def displayed (word : UInt16) : Rgb :=
  let color := (word % 0x40).toUInt8
  Emphasis.apply color (paletteColor color) (word / 0x40).toUInt8

/-- Write the four bytes of a pixel into a buffer. -/
def writeRgba (out : Array UInt8) (i : Nat) (word : UInt16) : Array UInt8 :=
  let rgba := (displayed word).toRgba
  (((out.setIfInBounds (4 * i) rgba[0]).setIfInBounds (4 * i + 1) rgba[1]).setIfInBounds
    (4 * i + 2) rgba[2]).setIfInBounds (4 * i + 3) rgba[3]

/-- Write a frame into the host's buffer, which is to hold at least four bytes for each pixel. -/
def toRgba? (frame : Frame) : VideoAttempt (Array UInt8) Unit := do
  if (← get).size < 4 * 61440 then throw .buffer
  modify fun out => Fin.foldl 61440 (fun out i => writeRgba out i (frame.words.get i)) out

end Frame

end Famicom
