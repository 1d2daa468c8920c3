import Famicom.Byte

/-!
# Controllers

A device in a controller socket is read one bit at a time. Writing drives its strobe line: while the
line is high, the shift register of a standard controller keeps loading the buttons, and when it
goes low, they stay latched and every read shifts out the next. After the eighth, ones follow.
-/

namespace Famicom

/-- What the console asks of a device in a controller socket. -/
class Controller (D : Type) where
  /-- Read the next bit; the other bits are what the open bus shows. -/
  read : D → UInt8 × D
  /-- Drive the strobe line with bit 0. -/
  write : D → UInt8 → D

/-- The bits that no device drives. -/
def openBus : UInt8 := 0x40

/-- The state of eight buttons, in the order in which they are read. -/
structure Buttons where
  a : Bool
  b : Bool
  select : Bool
  start : Bool
  up : Bool
  down : Bool
  left : Bool
  right : Bool
  deriving DecidableEq, Repr, Inhabited

namespace Buttons

/-- No button is pressed. -/
def released : Buttons := ⟨false, false, false, false, false, false, false, false⟩

/-- The byte that the shift register loads. -/
def toByte (s : Buttons) : UInt8 :=
  Byte.ofBits s.a s.b s.select s.start s.up s.down s.left s.right

/-- The buttons that a byte describes. -/
def ofByte (v : UInt8) : Buttons :=
  ⟨Byte.bit v 0, Byte.bit v 1, Byte.bit v 2, Byte.bit v 3, Byte.bit v 4, Byte.bit v 5,
    Byte.bit v 6, Byte.bit v 7⟩

@[simp] theorem toByte_ofByte (v : UInt8) : (ofByte v).toByte = v := Byte.ofBits_bit v

end Buttons

/-- The standard controller. -/
structure StandardController where
  buttons : Buttons
  strobe : Bool
  shift : UInt8
  deriving DecidableEq, Repr, Inhabited

namespace StandardController

/-- A controller that has not been used. -/
def new : StandardController := ⟨.released, false, 0⟩

/-- Read the next button. -/
def read (pad : StandardController) : UInt8 × StandardController :=
  if pad.strobe then (openBus + pad.buttons.a.toUInt8, pad)
  else (openBus + pad.shift % 2, { pad with shift := pad.shift / 2 + 0x80 })

/-- Drive the strobe line; both levels of the line and its falling edge load the buttons, a line
that stays low does not. -/
def write (pad : StandardController) (value : UInt8) : StandardController :=
  let strobe := Byte.bit value 0
  if pad.strobe || strobe then { pad with strobe, shift := pad.buttons.toByte } else pad

end StandardController

instance : Controller StandardController where
  read := StandardController.read
  write := StandardController.write

/-- A socket with nothing plugged in. -/
structure Unplugged where
  deriving DecidableEq, Repr, Inhabited

instance : Controller Unplugged where
  read socket := (openBus, socket)
  write socket _ := socket

end Famicom
