import Famicom.Proofs.Console.Configured
import Famicom.Proofs.Console.Requests
import Famicom.Proofs.Console.Scheduling

/-!
# What is configured is in force

The processor, the picture unit and the pacer each have a copy of the setting that concerns them,
and some calls build one of them anew. After every call all copies are those of the configuration,
and the configuration is the one that was set last.

* `Ppu.standard_run`: the unit keeps its video standard, whatever else is asked of it.
* `Console.standard_runUnpainted`: so a frame keeps it.
* `Console.config_answerAll`: the configuration is the one that was set last.
* `Console.inForce_answerAll`: what is configured is in force whenever a host looks.
-/

namespace Famicom

/-! ## The video standard -/

/-- The unit keeps its standard, unless it is given another. -/
theorem Ppu.standard_run (ppu : Ppu) {call : Call} (h : ∀ standard, call ≠ .setStandard standard) :
    (ppu.run call).standard = ppu.standard := by
  cases call with
  | read cartridge address =>
    exact congrArg (·.standard) (ppu.readRegister_changes cartridge address)
  | write cartridge address value =>
    exact congrArg (·.standard) (ppu.writeRegister_changes cartridge address value)
  | fetchSprite cartridge slot =>
    exact congrArg (·.standard) (ppu.fetchSprite_changes cartridge slot)
  | setStandard standard => exact absurd rfl (h standard)
  | _ => rfl

/-- No act of a frame gives the unit another standard. -/
theorem FrameAct.Requests.ne_setStandard {T C : Type} [Cartridge C] {a : FrameAct T}
    {call : Ppu.Call} (h : a.Requests C call) (standard : VideoStandard) :
    call ≠ .setStandard standard := by
  rintro rfl
  cases a with
  | perform line event =>
    obtain ⟨cartridge, hcall⟩ := h
    cases hstep : event.step <;> simp [hstep, PpuStep.calls] at hcall
  | beginVblank => cases h
  | endVblank => cases h
  | _ => exact h

namespace HostCall

variable {T C A D : Type}

/-- The configuration that a call sets, if it sets one. -/
def config? : HostCall T C A D → Option (Config T)
  | setConfig config => some config
  | _ => none

end HostCall

namespace Console

variable {T C A D S : Type} [Time T] [Cartridge C] [Apu A] [Controller D] [VideoSink S]
  {console : Console T C A D}

theorem standard_runUnpainted (console : Console T C A D) :
    console.runUnpainted.bus.ppu.standard = console.bus.ppu.standard := by
  rw [runUnpainted_eq]
  refine (console.served_performAll (Q := fun call => ∀ standard, call ≠ .setStandard standard)
    fun _ _ _ h => h.ne_setStandard).keeps
      (P := fun ppu => ppu.standard = console.bus.ppu.standard) ?_ rfl
  intro ppu call hcall hppu
  exact (ppu.standard_run hcall).trans hppu

/-! ## The configuration -/

theorem config_runUnpainted (console : Console T C A D) :
    console.runUnpainted.config = console.config := by
  rw [runUnpainted_eq]
  refine performAll_induction (P := fun later => later.config = console.config) ?_ rfl
  intro a _ later hlater
  cases a <;> exact hlater

/-- A console on which frames have been run has the configuration and the standard that it had. -/
theorem Played.settings {start : Console T C A D} (h : start.Played console) :
    console.config = start.config ∧ console.bus.ppu.standard = start.bus.ppu.standard := by
  refine h.keeps (P := fun later =>
    later.config = start.config ∧ later.bus.ppu.standard = start.bus.ppu.standard) ?_
    (fun _ _ _ hlater => hlater) ⟨rfl, rfl⟩
  rintro later ⟨hconfig, hstandard⟩
  exact ⟨later.config_runUnpainted.trans hconfig, later.standard_runUnpainted.trans hstandard⟩

/-- A call changes the configuration only to set another. -/
theorem config_answer (console : Console T C A D) (sink : S) (call : HostCall T C A D) :
    (console.answer sink call).1.config = call.config?.getD console.config := by
  by_cases hcall : call.Schedules
  · have hconfig := ((Played.refl console).answer hcall sink).settings.1
    cases call <;> first | exact hcall.elim | exact hconfig
  cases call <;> first | rfl | exact absurd trivial hcall

/-- The configuration is the one that was set last. -/
theorem config_answerAll (console : Console T C A D) (sink : S) (calls : List (HostCall T C A D)) :
    (console.answerAll sink calls).1.config =
      (calls.filterMap HostCall.config?).getLastD console.config := by
  induction calls generalizing console sink with
  | nil => rfl
  | cons call calls ih =>
    have hfirst := console.config_answer sink call
    rw [answerAll, ih, hfirst, List.filterMap_cons]
    cases call.config? with
    | none => rfl
    | some config => rw [List.getLastD_cons, Option.getD_some]

/-! ## Its copies -/

/-- The parts of a console have the settings that the configuration says. -/
structure InForce (console : Console T C A D) : Prop where
  jamBehavior : console.cpu.jamBehavior = console.config.jam
  standard : console.bus.ppu.standard = console.config.timing.standard
  pauseThreshold : console.pacer.timing.pauseThreshold = console.config.timing.pauseThreshold
  maxCatchUp : console.pacer.timing.maxCatchUp = console.config.timing.maxCatchUp

/-- After every call, the picture unit has the configured standard, although some calls build a new
one. -/
theorem standard_answer (h : console.bus.ppu.standard = console.config.timing.standard) (sink : S)
    (call : HostCall T C A D) :
    (console.answer sink call).1.bus.ppu.standard =
      (console.answer sink call).1.config.timing.standard := by
  by_cases hcall : call.Schedules
  · obtain ⟨hconfig, hstandard⟩ := ((Played.refl console).answer hcall sink).settings
    rw [hconfig, hstandard, h]
  cases call with
  | powerOn => rfl
  | insertCartridge cartridge => rfl
  | setConfig config => rfl
  | reset => exact h
  | setApu apu => exact h
  | plug socket device => cases socket <;> exact h
  | _ => exact absurd trivial hcall

theorem Reachable.inForce (h : console.Reachable) : console.InForce := by
  have hconfigured := h.configured
  refine ⟨hconfigured.jamBehavior, ?_, ?_, ?_⟩
  · clear hconfigured
    induction h with
    | new cartridge apu socket1 socket2 config => rfl
    | answer sink call _ ih => exact standard_answer ih sink call
  · rw [hconfigured.timing]
  · rw [hconfigured.timing]

/-- Whatever a host asks for, what is configured is in force, and the configuration is the one that
was set last. -/
theorem inForce_answerAll (h : console.Reachable) (sink : S) (calls : List (HostCall T C A D)) :
    let later := (console.answerAll sink calls).1
    later.InForce ∧ later.config = (calls.filterMap HostCall.config?).getLastD console.config := by
  intro later
  exact ⟨(h.answerAll sink calls).inForce, console.config_answerAll sink calls⟩

/-- A console that is configured anew, switched off and on, and runs. -/
theorem inForce_reconfigured :
    let config : Config ℚ :=
      { timing := { standard := .pal, pauseThreshold := 50, maxCatchUp := 2 }, jam := .halt }
    let later := (slotless.answerAll CaptureSink.empty [.setConfig config, .powerOn, .tick 0]).1
    slotless.Reachable ∧ later.InForce ∧ later.config = config := by
  intro config later
  have hnew : slotless.Reachable := .new ..
  exact ⟨hnew, inForce_answerAll hnew CaptureSink.empty [.setConfig config, .powerOn, .tick 0]⟩

end Console

end Famicom
