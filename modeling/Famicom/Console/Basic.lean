import Famicom.Bus
import Famicom.Console.Pacer
import Famicom.Console.Schedule
import Famicom.Cpu.Run

/-!
# The console

Processor, bus, configuration and pacing, and what a host can do to them apart from running
frames.
-/

namespace Famicom

/-- Where the console is within a frame. -/
inductive Phase where
  /-- Before the first frame. -/
  | boot
  /-- On a line of the picture. -/
  | visible (y : Fin 240)
  /-- On the line after the picture. -/
  | postRender
  /-- Between two pictures. -/
  | vblank
  /-- On the line before the picture. -/
  | preRender
  deriving DecidableEq, Repr

/-- A console; `T` measures time, and `C`, `A` and `D` are the devices outside it. -/
structure Console (T C A D : Type) where
  cpu : Cpu T
  bus : Bus C A D
  config : Config T
  pacer : Pacer T
  phase : Phase
  /-- Frames since power-on. -/
  frameCount : Nat
  paused : Bool

namespace Console

variable {T C A D : Type} [Time T] [Cartridge C] [Apu A] [Controller D]

/-- Pass the configuration on to the parts that it concerns. -/
def applyConfig (console : Console T C A D) : Console T C A D :=
  { console with
    cpu.jamBehavior := console.config.jam
    bus.ppu.standard := console.config.timing.standard
    pacer := .new console.config.timing }

/-- Change the configuration. -/
def setConfig (console : Console T C A D) (config : Config T) : Console T C A D :=
  { console with config }.applyConfig

/-- Switch the console off and on. Cartridge, sound unit and controllers are kept. -/
def powerOn (console : Console T C A D) : Console T C A D :=
  let bus := console.bus.powerOn console.config.timing.standard
  let (cpu, bus) := console.cpu.powerOn bus
  { console with
    cpu, bus
    phase := .boot
    frameCount := 0
    paused := false
    pacer := console.pacer.resume }

/-- A console with the given devices, switched on. -/
def new (cartridge : C) (apu : A) (socket1 socket2 : D) (config : Config T) : Console T C A D :=
  let console : Console T C A D :=
    { cpu := .new
      bus := .new cartridge apu socket1 socket2 config.timing.standard
      config := config
      pacer := .new config.timing
      phase := .boot
      frameCount := 0
      paused := false }
  console.applyConfig.powerOn

/-- Press the reset button. Memory is kept. -/
def reset (console : Console T C A D) : Console T C A D :=
  let (cpu, bus) := console.cpu.reset console.bus.reset
  { console with cpu, bus, paused := false, pacer := console.pacer.resume }

/-- Insert a cartridge and switch the console off and on. -/
def insertCartridge (console : Console T C A D) (cartridge : C) : Console T C A D :=
  { console with bus.cartridge := cartridge }.powerOn

/-- Replace the sound unit. -/
def setApu (console : Console T C A D) (apu : A) : Console T C A D :=
  { console with bus.apu := apu }

/-- Plug a device into a controller socket. -/
def plug (console : Console T C A D) (socket : Socket) (device : D) : Console T C A D :=
  { console with bus := console.bus.plug socket device }

/-- Pause. -/
def pause (console : Console T C A D) : Console T C A D := { console with paused := true }

/-- Continue; pacing begins anew, so the time spent paused is not caught up. -/
def resume (console : Console T C A D) : Console T C A D :=
  { console with paused := false, pacer := console.pacer.resume }

/-- Pause or continue. -/
def togglePause (console : Console T C A D) : Console T C A D :=
  if console.paused then console.resume else console.pause

end Console

end Famicom
