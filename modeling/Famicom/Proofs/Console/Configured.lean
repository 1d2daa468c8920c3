import Famicom.Proofs.Console.Lockstep
import Famicom.Proofs.Console.Pacing

/-!
# The configuration stays applied

A configuration is handed to the parts of the console that it concerns when it is set. Nothing that
the console does changes it there: what an opcode that stops the processor leads to, and how frames
are paced, are what the configuration says whenever a host looks.

* `Cpu.jamBehavior_step`, `Cpu.jamBehavior_runTo`: instructions and runs do not change it.
* `Configured.answer`: nor does anything that a host can ask for.
* `Reachable.configured`: every console that a host can have in front of it is configured.
-/

namespace Famicom

open SystemBus

namespace Cpu

variable {T B : Type} [SystemBus B] (cpu : Cpu T) (bus : B)

theorem jamBehavior_poll : (cpu.poll bus).1.jamBehavior = cpu.jamBehavior := by
  unfold poll pollInterrupts
  split
  · rfl
  · dsimp only
    split
    · rfl
    · split
      · unfold irq
        split <;> rfl
      · rfl

theorem jamBehavior_step : (cpu.step bus).2.1.jamBehavior = cpu.jamBehavior := by
  unfold step
  split
  · rfl
  · dsimp only
    split
    · unfold jam
      split <;> rfl
    · unfold perform serveTransfer
      dsimp only
      split <;> rfl

theorem jamBehavior_runTo [Time T] (limit : T) :
    (cpu.runTo bus limit).1.jamBehavior = cpu.jamBehavior := by
  refine runTo_induction (P := fun later _ => later.jamBehavior = cpu.jamBehavior) ?_ rfl
  intro later bus hlater _
  exact ((later.poll bus).1.jamBehavior_step _).trans ((later.jamBehavior_poll bus).trans hlater)

theorem jamBehavior_answerNmi : (cpu.answerNmi bus).1.jamBehavior = cpu.jamBehavior := by
  unfold answerNmi
  dsimp only
  split <;> rfl

end Cpu

namespace Console

variable {T C A D S : Type} [Time T] [Cartridge C] [Apu A] [Controller D] [VideoSink S]
  {console : Console T C A D}

/-- What the configuration says of the processor and of the pacing is in force. -/
structure Configured (console : Console T C A D) : Prop where
  jamBehavior : console.cpu.jamBehavior = console.config.jam
  timing : console.pacer.timing = console.config.timing

namespace Configured

theorem act (h : console.Configured) (a : FrameAct T) : (console.act a).Configured := by
  cases a with
  | runCpu limit =>
    have hrun := console.cpu.jamBehavior_runTo console.bus limit
    exact ⟨hrun.trans h.jamBehavior, h.timing⟩
  | answerNmi =>
    have hanswer := console.cpu.jamBehavior_answerNmi console.bus
    exact ⟨hanswer.trans h.jamBehavior, h.timing⟩
  | _ => exact ⟨h.jamBehavior, h.timing⟩

theorem runUnpainted (h : console.Configured) : console.runUnpainted.Configured := by
  rw [runUnpainted_eq]
  exact performAll_induction (P := Configured) (fun a _ _ hconsole => hconsole.act a) h

theorem runFrames (h : console.Configured) (n : Nat) :
    (Nat.repeat Console.runUnpainted n console).Configured := by
  induction n with
  | zero => exact h
  | succ n ih => exact ih.runUnpainted

theorem tick (h : console.Configured) (now : T) (sink : S) :
    (console.tick now sink).2.1.Configured := by
  have htiming : (console.pacer.tick now).2.timing = console.config.timing :=
    (Pacer.timing_tick _ now).trans h.timing
  unfold Console.tick
  split
  · exact h
  · rcases htick : console.pacer.tick now with ⟨result, pacer⟩
    rw [htick] at htiming
    have hready : { console with pacer }.Configured := ⟨h.jamBehavior, htiming⟩
    rcases result with error | decision
    · exact hready
    cases decision with
    | skip => exact hready
    | pause => exact ⟨h.jamBehavior, htiming⟩
    | run dropped => exact (hready.runFrames dropped.toNat).runUnpainted

/-- Whatever a host asks for. -/
theorem answer (h : console.Configured) (sink : S) (call : HostCall T C A D) :
    (console.answer sink call).1.Configured := by
  cases call with
  | frame call =>
    unfold Console.answer
    rw [runCall_fst]
    exact h.runUnpainted
  | tick now => exact h.tick now sink
  | togglePause =>
    show console.togglePause.Configured
    unfold togglePause
    split <;> exact ⟨h.jamBehavior, h.timing⟩
  | plug socket device => exact ⟨h.jamBehavior, h.timing⟩
  | setConfig config => exact ⟨rfl, rfl⟩
  | _ => exact ⟨h.jamBehavior, h.timing⟩

end Configured

/-- Every console that a host can have in front of it is configured. -/
theorem Reachable.configured (h : console.Reachable) : console.Configured := by
  induction h with
  | new cartridge apu socket1 socket2 config => exact ⟨rfl, rfl⟩
  | answer sink call _ ih => exact ih.answer sink call

end Console

end Famicom
