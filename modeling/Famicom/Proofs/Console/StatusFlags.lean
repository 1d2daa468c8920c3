import Famicom.Proofs.Console.Requests
import Famicom.Proofs.Console.SpriteLines
import Famicom.Proofs.Ppu.Flags

/-!
# The flags of the status between frames

The flags are cleared before the line that precedes the picture. On that line and after it nothing
begins vertical blanking, looks for sprites or draws, so a frame ends with no flag set, and a
program finds none set when the next one begins.

* `Ppu.Call.IsQuiet`: the requests that raise no flag.
* `Console.status_runUnpainted`: a frame leaves no flag set, whatever has happened before.
* `Console.Reachable.status`: so none is set between frames, whatever a host asks for.
* `Console.flags_of_any_run`: what the flags tell, within a frame and between frames.
-/

namespace Famicom

/-! ## Requests that raise no flag -/

namespace Ppu

/-- The requests that raise no flag of the status. -/
def Call.IsQuiet : Call → Prop
  | .beginVblank | .searchSprites _ | .drawTile .. => False
  | _ => True

theorem Call.IsAccess.isQuiet {call : Call} (h : call.IsAccess) : call.IsQuiet := by
  cases call <;> first | exact h.elim | trivial

theorem Call.IsQuiet.status_run {call : Call} (h : call.IsQuiet) {ppu : Ppu}
    (hclear : ppu.status = .clear) : (ppu.run call).status = .clear := by
  have hraise : call.beginsVblank = false ∧ ppu.raisesOverflow call = false ∧
      ppu.raisesHit call = false := by
    cases call <;> first | exact h.elim | exact ⟨rfl, rfl, rfl⟩
  obtain ⟨hvblank, hoverflow, hhit⟩ := hraise
  rw [Ppu.status_run, hvblank, hoverflow, hhit, hclear]
  rfl

end Ppu

/-- A step makes quiet requests, unless it looks for sprites or draws. -/
theorem PpuStep.isQuiet {C : Type} [Cartridge C] {step : PpuStep}
    (hsearch : ∀ line, step ≠ searchSprites line) (hdraw : ∀ line tile, step ≠ drawTile line tile)
    {cartridge : C} {call : Ppu.Call} (h : call ∈ step.calls cartridge) : call.IsQuiet := by
  cases step with
  | searchSprites line => exact absurd rfl (hsearch line)
  | drawTile line tile => exact absurd rfl (hdraw line tile)
  | fetchColumn | nextRow =>
    simp only [calls, List.mem_cons, List.not_mem_nil, or_false] at h
    rcases h with rfl | rfl <;> trivial
  | _ =>
    obtain rfl := List.mem_singleton.mp h
    trivial

namespace Console

variable {T C A D S : Type} [Time T] [Cartridge C] [Apu A] [Controller D] [VideoSink S]

/-! ## The end of a frame -/

/-- Once the line before the picture has begun, nothing raises a flag. -/
theorem served_ending (console : Console T C A D) (rendering : Bool) :
    console.bus.ppu.Served Ppu.Call.IsQuiet (console.performAll
      (Line.preRender.acts rendering ++ [.runCpu FrameTime.frameCycles, .close])).bus.ppu := by
  refine console.served_performAll fun a ha call h => ?_
  simp only [Line.acts, Line.actsOf, List.mem_append, List.mem_flatMap, List.mem_cons,
    List.not_mem_nil, or_false] at ha
  obtain ⟨event, hevent, rfl | rfl⟩ | rfl | rfl := ha
  · exact h.isQuiet
  · obtain ⟨cartridge, hcall⟩ := h
    exact PpuStep.isQuiet (Line.step_ne_searchSprites hevent) (Line.step_ne_drawTile hevent) hcall
  · exact h.isQuiet
  · exact h.elim

/-- A frame leaves no flag set, whatever has happened before. -/
theorem status_runUnpainted (console : Console T C A D) :
    console.runUnpainted.bus.ppu.status = .clear := by
  have hhead := console.status_preRenderHead
  rw [runUnpainted_preRenderHead]
  generalize console.preRenderHead = head at hhead
  exact (head.served_ending head.bus.ppu.rendering).keeps (P := fun ppu => ppu.status = .clear)
    (fun _ _ hquiet hclear => hquiet.status_run hclear) hhead

/-! ## Runs -/

/-- Between frames, no flag is set. -/
theorem Reachable.status {console : Console T C A D} (h : console.Reachable) :
    console.bus.ppu.status = .clear :=
  h.ppu_induction (P := fun ppu => ppu.status = .clear) (fun _ => rfl) (fun _ hppu => hppu)
    (fun _ _ hppu => hppu) (fun console _ => console.status_runUnpainted)

/-- Whatever is asked of the picture unit, its flags tell of the requests. Every frame ends with the
status clear, and so it is found whenever a host looks. -/
theorem flags_of_any_run :
    (∀ (ppu : Ppu) (calls : List Ppu.Call), ppu.FlagsTell calls) ∧
      (∀ (console : Console T C A D) (sink : S) (call : FrameCall),
        (console.runCall sink call).1.bus.ppu.status.toByte = 0) ∧
      ∀ (cartridge : C) (apu : A) (socket1 socket2 : D) (config : Config T) (sink : S)
        (calls : List (HostCall T C A D)),
        ((new cartridge apu socket1 socket2 config).answerAll sink calls).1.bus.ppu.status.toByte
          = 0 := by
  refine ⟨Ppu.flagsTell, ?_, ?_⟩
  · intro console sink call
    rw [runCall_fst, status_runUnpainted]
    rfl
  · intro cartridge apu socket1 socket2 config sink calls
    have hreachable : (new cartridge apu socket1 socket2 config).Reachable := .new ..
    rw [(hreachable.answerAll sink calls).status]
    rfl

end Console

end Famicom
