import Famicom.Console.Basic
import Famicom.Video.Sink

/-!
# Frames

A frame interleaves the processor with the picture unit: before each step of the unit the processor
runs up to the step's dot, so that what a program writes takes effect between the same two steps as
on the hardware. The finished picture goes to the host once vertical blanking has begun.
-/

namespace Famicom

namespace Console

variable {T C A D : Type} [Time T] [Cartridge C] [Apu A] [Controller D]

/-- Let the processor run up to a time within the frame. -/
def runCpu (console : Console T C A D) (limit : T) : Console T C A D :=
  let (cpu, bus) := console.cpu.runTo console.bus limit
  { console with cpu, bus }

/-- Let the processor run up to a dot. -/
def catchUp (console : Console T C A D) (line dot : Nat) : Console T C A D :=
  console.runCpu (FrameTime.ofDot line dot)

/-- Let the picture unit perform a step. -/
def performStep (console : Console T C A D) (step : PpuStep) : Console T C A D :=
  let (ppu, cartridge) := step.run console.bus.ppu console.bus.cartridge
  { console with bus.ppu := ppu, bus.cartridge := cartridge }

/-- Let the processor reach an event's dot and perform the step that is due. -/
def performEvent (line : Line) (console : Console T C A D) (event : Event) : Console T C A D :=
  (console.catchUp line.number event.dot).performStep event.step

/-- Run the schedule of a line. Whether the unit renders is decided before the processor reaches
the line. -/
def runLine (console : Console T C A D) (line : Line) : Console T C A D :=
  (line.events console.bus.ppu.rendering).foldl (performEvent line) console

/-- Run a line of the picture. -/
def runVisible (console : Console T C A D) (y : Fin 240) : Console T C A D :=
  { console with phase := .visible y }.runLine (.visible y)

/-- Begin vertical blanking and interrupt the processor, unless it is halted. -/
def beginVblank (console : Console T C A D) : Console T C A D :=
  let console := { console with bus.ppu := console.bus.ppu.beginVblank }
  let (pending, bus) := SystemBus.takeNmi console.bus
  if pending && !console.cpu.jammed then
    let (cpu, bus) := console.cpu.nmi bus
    { console with cpu, bus }
  else { console with bus }

/-- Run the lines of the picture, and on to the beginning of vertical blanking. -/
def runPicture (console : Console T C A D) : Console T C A D :=
  let console := Fin.foldl 240 runVisible console
  let console := { console with phase := .postRender }.catchUp Line.postRender 0
  let console := { console with phase := .vblank }.catchUp Line.vblank 1
  console.beginVblank

/-- Run the rest of the frame. -/
def runBlanking (console : Console T C A D) : Console T C A D :=
  let console := { console with phase := .preRender }.catchUp Line.preRender.number 1
  let console := { console with bus.ppu := console.bus.ppu.endVblank }
  let console := (console.runLine .preRender).runCpu FrameTime.frameCycles
  { console with
    cpu := console.cpu.endFrame FrameTime.frameCycles
    frameCount := console.frameCount + 1 }

/-- Run a frame without presenting it. -/
def runUnpainted (console : Console T C A D) : Console T C A D := console.runPicture.runBlanking

/-- Run a frame and present it. -/
def runFrame {S : Type} [VideoSink S] (console : Console T C A D) (sink : S) :
    Console T C A D × S :=
  let console := console.runPicture
  let sink := VideoSink.present sink console.bus.ppu.frame
  (console.runBlanking, sink)

/-- Run what the pacing asks for at a call of the host. Nothing happens while the console is
paused, and nothing is run if the pacing fails. -/
def tick {S : Type} [VideoSink S] (console : Console T C A D) (now : T) (sink : S) :
    Except PacingError PaceDecision × Console T C A D × S :=
  if console.paused then (.ok .skip, console, sink)
  else
    let (result, pacer) := console.pacer.tick now
    let console := { console with pacer }
    match result with
    | .error error => (.error error, console, sink)
    | .ok .skip => (.ok .skip, console, sink)
    | .ok .pause => (.ok .pause, console.pause, sink)
    | .ok (.run dropped) =>
      let console := Nat.repeat runUnpainted dropped.toNat console
      let (console, sink) := console.runFrame sink
      (.ok (.run dropped), console, sink)

end Console

end Famicom
