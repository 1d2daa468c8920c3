import Famicom.Proofs.Console.Acts
import Famicom.Proofs.Console.Calls

/-!
# Two consoles side by side

Which acts make up a frame depends on the console in one respect: whether the picture unit renders
at the head of each line. So a relation between two consoles that every act keeps, and under which
both units render or neither does, is kept by frames.

* `Lockstep.frameActs`: both consoles perform the same acts.
* `Lockstep.runUnpainted`, `Lockstep.runCall`: a frame keeps the relation, and shows the same.
* `runUnpainted_pacing`: a frame takes no notice of the pacing.
-/

namespace Famicom

namespace Console

variable {T C A D S : Type} [Time T] [Cartridge C] [Apu A] [Controller D] [VideoSink S]

/-- A relation that two consoles keep act by act, and under which they perform the same acts. -/
structure Lockstep (R : Console T C A D → Console T C A D → Prop) : Prop where
  rendering : ∀ {console other}, R console other →
    console.bus.ppu.rendering = other.bus.ppu.rendering
  act : ∀ {console other}, R console other → ∀ a, R (console.act a) (other.act a)

namespace Lockstep

variable {R : Console T C A D → Console T C A D → Prop} {console other : Console T C A D}

theorem performAll (h : Lockstep R) (hr : R console other) (acts : List (FrameAct T)) :
    R (console.performAll acts) (other.performAll acts) := by
  induction acts generalizing console other with
  | nil => exact hr
  | cons a acts ih => exact ih (h.act hr a)

theorem schedule (h : Lockstep R) (hr : R console other) (stages : List (Stage T)) :
    console.schedule stages = other.schedule stages := by
  induction stages generalizing console other with
  | nil => rfl
  | cons stage stages ih =>
    -- Both units render at the head of the stage or neither does, so the stage has the same acts.
    have hrest := ih (h.performAll hr (stage.unfold other.bus.ppu.rendering))
    rw [Console.schedule, Console.schedule, h.rendering hr, hrest]

/-- Both consoles perform the same acts in a frame. -/
theorem frameActs (h : Lockstep R) (hr : R console other) :
    console.frameActs = other.frameActs := by
  unfold Console.frameActs frameBody
  rw [h.schedule hr]

theorem runUnpainted (h : Lockstep R) (hr : R console other) :
    R console.runUnpainted other.runUnpainted := by
  rw [runUnpainted_eq, runUnpainted_eq, h.frameActs hr]
  exact h.performAll hr _

theorem runPicture (h : Lockstep R) (hr : R console other) :
    R console.runPicture other.runPicture := by
  rw [runPicture_eq, runPicture_eq, h.schedule hr]
  exact h.act (h.performAll hr _) _

/-- A frame that a host asks for keeps the relation, and shows the same on both sides if related
consoles hold the same picture. -/
theorem runCall (h : Lockstep R)
    (frame : ∀ {console other}, R console other → console.bus.ppu.frame = other.bus.ppu.frame)
    (hr : R console other) (sink : S) (call : FrameCall) :
    R (console.runCall sink call).1 (other.runCall sink call).1 ∧
      (console.runCall sink call).2 = (other.runCall sink call).2 := by
  constructor
  · rw [runCall_fst, runCall_fst]
    exact h.runUnpainted hr
  · cases call with
    | painted =>
      show VideoSink.present sink console.runPicture.bus.ppu.frame =
        VideoSink.present sink other.runPicture.bus.ppu.frame
      rw [frame (h.runPicture hr)]
    | unpainted => rfl

end Lockstep

/-! ## Pacing -/

/-- No act takes notice of the pacing, or of whether the console is paused. -/
theorem lockstep_pacing (pacer : Pacer T) (paused : Bool) :
    Lockstep fun console other : Console T C A D => other = { console with pacer, paused } where
  rendering h := by rw [h]
  act h a := by
    rw [h]
    cases a <;> rfl

/-- Nor does a frame. -/
theorem runUnpainted_pacing (console : Console T C A D) (pacer : Pacer T) (paused : Bool) :
    { console with pacer, paused }.runUnpainted = { console.runUnpainted with pacer, paused } :=
  (lockstep_pacing pacer paused).runUnpainted rfl

/-- A frame leaves the pacing as it is. -/
theorem pacing_runUnpainted (console : Console T C A D) :
    console.runUnpainted.pacer = console.pacer ∧ console.runUnpainted.paused = console.paused := by
  have hsame := console.runUnpainted_pacing console.pacer console.paused
  exact ⟨congrArg (·.pacer) hsame, congrArg (·.paused) hsame⟩

end Console

end Famicom
