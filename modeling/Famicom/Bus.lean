import Famicom.Apu
import Famicom.Controller
import Famicom.Cpu.SystemBus
import Famicom.Ppu.Register
import Famicom.WorkRam

/-!
# The bus

The processor's address space and the devices behind it:

| Addresses       | Device                                   |
| --------------- | ---------------------------------------- |
| `$0000`-`$1FFF` | work RAM, repeated                       |
| `$2000`-`$3FFF` | registers of the picture unit, repeated  |
| `$4000`-`$4017` | sound unit, sprite transfer, controllers |
| `$4018`-`$401F` | nothing                                  |
| `$4020`-`$FFFF` | cartridge                                |

The bus owns its devices. The cartridge, the sound unit and what is plugged into the controller
sockets may be of any type with the operations that the console needs.
-/

namespace Famicom

/-- A controller socket. -/
inductive Socket where
  /-- Read at `$4016`. -/
  | one
  /-- Read at `$4017`. -/
  | two
  deriving DecidableEq, Repr, Inhabited

/-- Work RAM and everything that is wired to the processor. -/
structure Bus (C A D : Type) where
  ram : WorkRam
  ppu : Ppu
  apu : A
  cartridge : C
  socket1 : D
  socket2 : D
  /-- The page whose transfer to sprite memory has been requested. -/
  dmaPage : Option UInt8

namespace Bus

variable {C A D : Type}

/-- A bus with the given devices, switched on. -/
def new (cartridge : C) (apu : A) (socket1 socket2 : D) (standard : VideoStandard) :
    Bus C A D where
  ram := .cleared
  ppu := .powerOn standard
  apu := apu
  cartridge := cartridge
  socket1 := socket1
  socket2 := socket2
  dmaPage := none

/-- Switch on: memory is cleared, and the devices outside the console are kept. -/
def powerOn (bus : Bus C A D) (standard : VideoStandard) : Bus C A D :=
  { bus with ram := .cleared, ppu := .powerOn standard, dmaPage := none }

/-- The reset button: memory is kept. -/
def reset (bus : Bus C A D) : Bus C A D := { bus with ppu := bus.ppu.reset, dmaPage := none }

/-- Plug a device into a socket. -/
def plug (bus : Bus C A D) (socket : Socket) (device : D) : Bus C A D :=
  match socket with
  | .one => { bus with socket1 := device }
  | .two => { bus with socket2 := device }

variable [Cartridge C] [Apu A] [Controller D]

/-- Read a register of the picture unit. -/
def readPpu (bus : Bus C A D) (address : UInt16) : UInt8 × Bus C A D :=
  let (value, ppu, cartridge) := bus.ppu.readRegister bus.cartridge address
  (value, { bus with ppu, cartridge })

/-- Write a register of the picture unit. -/
def writePpu (bus : Bus C A D) (address : UInt16) (value : UInt8) : Bus C A D :=
  let (ppu, cartridge) := bus.ppu.writeRegister bus.cartridge address value
  { bus with ppu, cartridge }

/-- Read an address between the picture unit and the cartridge. -/
def readIo (bus : Bus C A D) (address : UInt16) : UInt8 × Bus C A D :=
  if address < 0x4016 then
    let (value, apu) := Apu.readRegister bus.apu address
    (value, { bus with apu })
  else if address = 0x4016 then
    let (value, socket1) := Controller.read bus.socket1
    (value, { bus with socket1 })
  else if address = 0x4017 then
    let (value, socket2) := Controller.read bus.socket2
    (value, { bus with socket2 })
  else (0, bus)

/-- Write an address between the picture unit and the cartridge. -/
def writeIo (bus : Bus C A D) (address : UInt16) (value : UInt8) : Bus C A D :=
  if address = 0x4014 then { bus with dmaPage := some value }
  else if address = 0x4016 then
    { bus with
      socket1 := Controller.write bus.socket1 value
      socket2 := Controller.write bus.socket2 value }
  else if address < 0x4018 then { bus with apu := Apu.writeRegister bus.apu address value }
  else bus

/-- Read an address. -/
def read (bus : Bus C A D) (address : UInt16) : UInt8 × Bus C A D :=
  if address < 0x2000 then (bus.ram.load address.toNat, bus)
  else if address < 0x4000 then bus.readPpu address
  else if address < 0x4020 then bus.readIo address
  else
    let (value, cartridge) := Cartridge.cpuRead bus.cartridge address
    (value, { bus with cartridge })

/-- Write an address. -/
def write (bus : Bus C A D) (address : UInt16) (value : UInt8) : Bus C A D :=
  if address < 0x2000 then { bus with ram := bus.ram.store address.toNat value }
  else if address < 0x4000 then bus.writePpu address value
  else if address < 0x4020 then bus.writeIo address value
  else { bus with cartridge := Cartridge.cpuWrite bus.cartridge address value }

instance : SystemBus (Bus C A D) where
  read := read
  write := write
  clock bus cycles := { bus with apu := Apu.clock bus.apu cycles }
  takeNmi bus :=
    let (pending, ppu) := bus.ppu.takeNmi
    (pending, { bus with ppu })
  irqLine bus := Apu.irqPending bus.apu || Cartridge.irqPending bus.cartridge
  takeDmaRequest bus := (bus.dmaPage, { bus with dmaPage := none })
  writeOam bus value := { bus with ppu := bus.ppu.writeOam value }

end Bus

end Famicom
