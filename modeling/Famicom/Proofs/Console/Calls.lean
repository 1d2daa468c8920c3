import Famicom.Console.Frame

/-!
# Calls of a host

What a host can ask of a console, as data, so that statements can be made about every sequence of
calls.

* `Console.runCall_fst`: a frame runs alike whether it is presented or not.
* `Console.Reachable`: the consoles that a host can have in front of it.
-/

namespace Famicom

/-- The ways to ask for a frame. -/
inductive FrameCall where
  | painted
  | unpainted
  deriving DecidableEq, Repr

/-- What a host can ask of a console. -/
inductive HostCall (T C A D : Type) where
  | frame (call : FrameCall)
  | tick (now : T)
  | pause
  | resume
  | togglePause
  | reset
  | powerOn
  | setConfig (config : Config T)
  | insertCartridge (cartridge : C)
  | setApu (apu : A)
  | plug (socket : Socket) (device : D)

namespace Console

variable {T C A D S : Type} [Time T] [Cartridge C] [Apu A] [Controller D] [VideoSink S]

/-- Run the frame that a host asks for. -/
def runCall (console : Console T C A D) (sink : S) : FrameCall → Console T C A D × S
  | .painted => console.runFrame sink
  | .unpainted => (console.runUnpainted, sink)

/-- Run the frames that a host asks for, one after the other. -/
def runCalls (console : Console T C A D) (sink : S) : List FrameCall → Console T C A D × S
  | [] => (console, sink)
  | call :: calls => (console.runCall sink call).1.runCalls (console.runCall sink call).2 calls

/-- Do what a host asks for. -/
def answer (console : Console T C A D) (sink : S) : HostCall T C A D → Console T C A D × S
  | .frame call => console.runCall sink call
  | .tick now => (console.tick now sink).2
  | .pause => (console.pause, sink)
  | .resume => (console.resume, sink)
  | .togglePause => (console.togglePause, sink)
  | .reset => (console.reset, sink)
  | .powerOn => (console.powerOn, sink)
  | .setConfig config => (console.setConfig config, sink)
  | .insertCartridge cartridge => (console.insertCartridge cartridge, sink)
  | .setApu apu => (console.setApu apu, sink)
  | .plug socket device => (console.plug socket device, sink)

/-- Do what a host asks for, one call after the other. -/
def answerAll (console : Console T C A D) (sink : S) :
    List (HostCall T C A D) → Console T C A D × S
  | [] => (console, sink)
  | call :: calls => (console.answer sink call).1.answerAll (console.answer sink call).2 calls

/-- A console to which a host can come, whatever shows its pictures. -/
inductive Reachable : Console T C A D → Prop where
  | new (cartridge : C) (apu : A) (socket1 socket2 : D) (config : Config T) :
      Reachable (.new cartridge apu socket1 socket2 config)
  | answer {S : Type} [VideoSink S] {console : Console T C A D} (sink : S)
      (call : HostCall T C A D) : Reachable console → Reachable (console.answer sink call).1

theorem Reachable.answerAll {console : Console T C A D} (h : console.Reachable) (sink : S)
    (calls : List (HostCall T C A D)) : (console.answerAll sink calls).1.Reachable := by
  induction calls generalizing console sink with
  | nil => exact h
  | cons call calls ih => exact ih (h.answer sink call) _

/-- A frame runs alike whether it is presented or not. -/
theorem runCall_fst (console : Console T C A D) (sink : S) (call : FrameCall) :
    (console.runCall sink call).1 = console.runUnpainted := by
  cases call <;> rfl

/-- What asking for a frame keeps, asking for frames keeps. -/
theorem runCalls_induction {P : Nat → Console T C A D → Prop}
    (frame : ∀ n console, P n console → P (n + 1) console.runUnpainted) {n : Nat}
    {console : Console T C A D} (h : P n console) (sink : S) (calls : List FrameCall) :
    P (n + calls.length) (console.runCalls sink calls).1 := by
  induction calls generalizing n console sink with
  | nil => exact h
  | cons call calls ih =>
    have hnext := frame n console h
    rw [← console.runCall_fst sink call] at hnext
    have hlength : n + (call :: calls).length = n + 1 + calls.length := by
      rw [List.length_cons]
      omega
    rw [hlength]
    exact ih hnext _

end Console

end Famicom
