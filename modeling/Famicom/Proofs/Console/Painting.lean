import Famicom.Proofs.Console.Acts
import Famicom.Proofs.Cpu.ExactTime
import Famicom.Proofs.Cpu.Program
import Famicom.Proofs.Ppu.Brush
import Famicom.Proofs.Ppu.Settings

/-!
# The background over a frame

While the processor leaves the registers of the picture unit alone, a frame moves the brush of the
unit and nothing else that the background depends on. The line before the picture leads the brush to
where the address register says that pictures begin, so from the second such frame on the picture
is a window onto the four nametables.

* `Paints.keeps`: what the processor may do while the unit paints.
* `Console.PaintsAt.performAll`, `Console.PaintsAt.schedule`: a frame moves the brush.
* `second_frame_word`: every word of the second frame.
-/

namespace Famicom

/-- No step on the line before the picture draws. -/
theorem Line.step_ne_drawTile {rendering : Bool} {event : Event}
    (h : event ∈ Line.preRender.events rendering) (line : Fin 240) (tile : Fin 32) :
    event.step ≠ .drawTile line tile := by
  cases rendering with
  | false => grind [Line.events, Line.tileEvents, Line.tileSteps]
  | true => grind [Line.events, Line.tileEvents, Line.tileSteps, Line.closingEvents]

/-- An access that leaves the registers of the picture unit alone. -/
def Access.Quiet (a : Access) : Prop := ¬ (0x2000 ≤ a.address ∧ a.address < 0x4000)

section

variable {T A D : Type} [Time T] [Apu A] [Controller D] {given : Ppu} {slot : Nrom}

namespace Paints

/-- A write by the processor leaves alone what the unit sees of a board. -/
theorem cpuStore {brush : Brush} {ppu : Ppu} {board : Nrom} (h : Paints given slot brush ppu board)
    (address : UInt16) (value : UInt8) :
    Paints given slot brush ppu (board.cpuStore address value) := by
  unfold Nrom.cpuStore
  split
  · exact { h with }
  · exact h

/-- Quiet accesses, and transfers to sprite memory, leave the picture alone. -/
theorem keeps (brush : Brush) :
    Keeps Access.Quiet fun bus : Bus Nrom A D => Paints given slot brush bus.ppu bus.cartridge where
  read bus address hq h := by
    show Paints given slot brush (bus.read address).2.ppu (bus.read address).2.cartridge
    unfold Bus.read
    by_cases hram : address < 0x2000
    · rw [if_pos hram]
      exact h
    · have hppu : ¬ address < 0x4000 := fun hlt => hq ⟨UInt16.not_lt.mp hram, hlt⟩
      rw [if_neg hram, if_neg hppu]
      by_cases hio : address < 0x4020
      · obtain ⟨hunit, hboard⟩ := bus.readIo_devices address
        rw [if_pos hio, hunit, hboard]
        exact h
      · rw [if_neg hio]
        exact h
  write bus address value hq h := by
    show Paints given slot brush (bus.write address value).ppu (bus.write address value).cartridge
    unfold Bus.write
    by_cases hram : address < 0x2000
    · rw [if_pos hram]
      exact h
    · have hppu : ¬ address < 0x4000 := fun hlt => hq ⟨UInt16.not_lt.mp hram, hlt⟩
      rw [if_neg hram, if_neg hppu]
      by_cases hio : address < 0x4020
      · obtain ⟨hunit, hboard⟩ := bus.writeIo_devices address value
        rw [if_pos hio, hunit, hboard]
        exact h
      · rw [if_neg hio]
        exact h.cpuStore address value
  clock _ _ h := h
  takeNmi _ h := { h with }
  takeDmaRequest _ h := h
  writeOam _ _ h := { h with }

end Paints

namespace Brush

variable (given : Ppu) (slot : Nrom)

/-- The unit renders if the mask of the given one says so. -/
def endVblank (brush : Brush) : Brush := { brush with rendering := given.mask.rendering }

/-- How an act moves the brush. -/
def act (brush : Brush) : FrameAct T → Brush
  | .perform _ event => brush.step given slot event.step
  | .endVblank => brush.endVblank given
  | _ => brush

/-- How a stage moves the brush. -/
def stage (brush : Brush) (s : Stage T) : Brush :=
  (s.unfold brush.rendering).foldl (act given slot) brush

variable {given slot} {brush : Brush} {row : Nat}

theorem stage_line (brush : Brush) (line : Line) :
    brush.stage given slot (.line line : Stage T) =
      brush.run given slot (line.events brush.rendering) := by
  show (line.acts brush.rendering).foldl (act given slot) brush = _
  rw [Line.acts, List.foldl_flatMap]
  rfl

/-- The lines of the picture draw the rows from the one at which the brush is. -/
theorem word_screenStages (h : brush.At given slot row given.t.column) (hr : row < 480)
    (hon : brush.rendering = true) (hshown : given.mask.showBackground = true) (x : Fin 256)
    (y : Fin 240) :
    ((screenStages : List (Stage T)).foldl (stage given slot) brush).frame.word x y =
      rowWord given slot ((row + y) % 480) given.t.column x := by
  have hstages (brush : Brush) (line : Fin 240) :
      ([.acts [.enter (.visible line)], .line (.visible line)] : List (Stage T)).foldl
        (stage given slot) brush =
          brush.run given slot ((Line.visible line).events brush.rendering) :=
    stage_line (T := T) brush (.visible line)
  have hlines : (screenStages : List (Stage T)).foldl (stage given slot) brush =
      (List.finRange 240).foldl
        (fun brush line => brush.run given slot ((Line.visible line).events brush.rendering))
          brush := by
    rw [screenStages, List.foldl_flatMap]
    simp only [hstages]
  have hfold := foldl_finRange_induction (n := 240) (a := brush)
    (f := fun brush line => brush.run given slot ((Line.visible line).events brush.rendering))
    (P := fun n b => b.At given slot ((row + n) % 480) given.t.column ∧ b.rendering = true ∧
      ∀ x (y : Fin 240), y.val < n →
        b.frame.word x y = rowWord given slot ((row + y) % 480) given.t.column x)
    (fun line b hb => ?_) ⟨?_, hon, fun _ _ hlt => (Nat.not_lt_zero _ hlt).elim⟩
  · rw [hlines]
    exact hfold.2.2 x y y.isLt
  · obtain ⟨hat, hb, hwords⟩ := hb
    obtain ⟨hnext, hline⟩ := run_visible hat (Nat.mod_lt _ (by decide)) hshown line
    rw [hb]
    refine ⟨?_, (b.rendering_run _).trans hb, fun x y hlt => ?_⟩
    · rw [Nat.mod_add_mod, Nat.add_assoc] at hnext
      exact hnext
    · rw [hline]
      by_cases hy : y = line
      · rw [if_pos hy, hy]
      · rw [if_neg hy]
        exact hwords x y (by omega)
  · rw [Nat.add_zero, Nat.mod_eq_of_lt hr]
    exact h

/-- The stages after the lines of the picture draw nothing. -/
theorem frame_pictureStages (brush : Brush) :
    ((pictureStages : List (Stage T)).foldl (stage given slot) brush).frame =
      ((screenStages : List (Stage T)).foldl (stage given slot) brush).frame := by
  have hlast (drawn : Brush) : (drawn.stage given slot (.acts
      [.enter .postRender, .runCpu (FrameTime.ofDot Line.postRender 0), .enter .vblank,
        .runCpu (FrameTime.ofDot Line.vblank 1), .beginVblank] : Stage T)).frame =
      drawn.frame := rfl
  rw [pictureStages, List.foldl_append, List.foldl_cons, List.foldl_nil, hlast]

/-- The line before the picture draws nothing. -/
theorem frame_run_preRender (brush : Brush) (rendering : Bool) :
    (brush.run given slot (Line.preRender.events rendering)).frame = brush.frame := by
  have hsteps (event : Event) (hevent : event ∈ Line.preRender.events rendering) (brush : Brush) :
      (brush.step given slot event.step).frame = brush.frame := by
    cases hstep : event.step with
    | drawTile line tile => exact absurd hstep (Line.step_ne_drawTile hevent line tile)
    | _ => rfl
  unfold run
  generalize Line.preRender.events rendering = events at hsteps
  induction events generalizing brush with
  | nil => rfl
  | cons event events ih =>
    have hfirst := hsteps event (List.mem_cons_self ..) brush
    exact (ih _ fun e he => hsteps e (.tail _ he)).trans hfirst

theorem frame_endVblank (brush : Brush) : (brush.endVblank given).frame = brush.frame := rfl

theorem rendering_endVblank (brush : Brush) :
    (brush.endVblank given).rendering = given.mask.rendering := rfl

/-- After the picture, the end of vertical blanking takes from the mask whether the unit renders,
and the line before the picture follows. -/
theorem foldl_blankingStages (brush : Brush) :
    (.acts [.answerNmi] :: blankingStages : List (Stage T)).foldl (stage given slot) brush =
      (brush.endVblank given).run given slot (Line.preRender.events given.mask.rendering) := by
  have hended : (brush.stage given slot (.acts [.answerNmi] : Stage T)).stage given slot
      (.acts [.enter .preRender, .runCpu (FrameTime.ofDot Line.preRender.number 1), .endVblank] :
        Stage T) = brush.endVblank given := rfl
  rw [blankingStages, List.foldl_cons, List.foldl_cons, hended, List.foldl_cons, List.foldl_nil,
    stage_line, rendering_endVblank]

/-- What the picture draws stays until the frame ends. -/
theorem frame_frameStages (brush : Brush) :
    ((frameStages : List (Stage T)).foldl (stage given slot) brush).frame =
      ((pictureStages : List (Stage T)).foldl (stage given slot) brush).frame := by
  rw [frameStages, List.foldl_append, foldl_blankingStages, frame_run_preRender, frame_endVblank]

variable (slot) in
/-- At the end of a frame, whether the unit renders is what the mask says. -/
theorem rendering_frameStages (brush : Brush) :
    ((frameStages : List (Stage T)).foldl (stage given slot) brush).rendering =
      given.mask.rendering := by
  rw [frameStages, List.foldl_append, foldl_blankingStages, rendering_run, rendering_endVblank]

variable (slot) in
/-- At the end of a frame the brush is where pictures begin. -/
theorem at_frameStages (brush : Brush) (hshown : given.mask.showBackground = true)
    (ht : given.t.coarseY.toNat ≤ 29) :
    ((frameStages : List (Stage T)).foldl (stage given slot) brush).At given slot given.t.row
      given.t.column := by
  rw [frameStages, List.foldl_append, foldl_blankingStages,
    Mask.rendering_of_showBackground hshown]
  exact run_preRender _ ht

end Brush

namespace Console

variable {console : Console T Nrom A D} {brush : Brush}

/-- The console paints what the given unit would. -/
def PaintsAt (given : Ppu) (slot : Nrom) (brush : Brush) (console : Console T Nrom A D) : Prop :=
  Paints given slot brush console.bus.ppu console.bus.cartridge

theorem PaintsAt.act (h : console.PaintsAt given slot brush)
    (hsprites : given.mask.showSprites = false) {a : FrameAct T}
    (hq : ∀ access ∈ console.accessesOf a, access.Quiet) :
    (console.act a).PaintsAt given slot (brush.act given slot a) := by
  cases a with
  | enter phase => exact h
  | runCpu limit => exact (Paints.keeps brush).runTo console.cpu h hq
  | perform line event => exact h.step hsprites event.step
  | beginVblank => exact { h with }
  | answerNmi => exact (Paints.keeps brush).answerNmi console.cpu h hq
  | endVblank => exact { h with rendering := congrArg Mask.rendering h.mask }
  | close => exact h

/-- Acts during which the processor is quiet move the brush. -/
theorem PaintsAt.performAll (h : console.PaintsAt given slot brush)
    (hsprites : given.mask.showSprites = false) {acts : List (FrameAct T)}
    (hq : ∀ access ∈ console.accesses acts, access.Quiet) :
    (console.performAll acts).PaintsAt given slot (acts.foldl (Brush.act given slot) brush) := by
  induction acts generalizing console brush with
  | nil => exact h
  | cons a acts ih =>
    obtain ⟨hfirst, hrest⟩ := List.forall_mem_append.mp hq
    exact ih (h.act hsprites hfirst) hrest

/-- Stages during which the processor is quiet move the brush. -/
theorem PaintsAt.schedule (h : console.PaintsAt given slot brush)
    (hsprites : given.mask.showSprites = false) {stages : List (Stage T)}
    (hq : ∀ access ∈ console.accesses (console.schedule stages), access.Quiet) :
    (console.performAll (console.schedule stages)).PaintsAt given slot
      (stages.foldl (Brush.stage given slot) brush) := by
  induction stages generalizing console brush with
  | nil => exact h
  | cons stage stages ih =>
    rw [Console.schedule, accesses_append] at hq
    obtain ⟨hfirst, hrest⟩ := List.forall_mem_append.mp hq
    have hnext := h.performAll hsprites hfirst
    rw [h.rendering] at hnext hrest
    rw [Console.schedule, performAll_append, h.rendering]
    exact ih hnext hrest

/-- The picture of a frame. -/
theorem PaintsAt.runPicture (h : console.PaintsAt given slot brush)
    (hsprites : given.mask.showSprites = false)
    (hq : ∀ access ∈ console.accesses console.frameActs, access.Quiet) :
    console.runPicture.PaintsAt given slot
      ((pictureStages : List (Stage T)).foldl (Brush.stage given slot) brush) := by
  rw [frameActs, frameBody, frameStages, schedule_append, List.append_assoc, List.append_assoc,
    accesses_append] at hq
  obtain ⟨hpicture, hrest⟩ := List.forall_mem_append.mp hq
  obtain ⟨hnmi, -⟩ := List.forall_mem_append.mp hrest
  have hpainted := h.schedule hsprites hpicture
  rw [runPicture_eq]
  generalize (pictureStages : List (Stage T)).foldl (Brush.stage given slot) brush = painted
    at hpainted ⊢
  exact hpainted.act hsprites hnmi

/-- A whole frame. -/
theorem PaintsAt.runUnpainted (h : console.PaintsAt given slot brush)
    (hsprites : given.mask.showSprites = false)
    (hq : ∀ access ∈ console.accesses console.frameActs, access.Quiet) :
    console.runUnpainted.PaintsAt given slot
      ((frameStages : List (Stage T)).foldl (Brush.stage given slot) brush) := by
  rw [frameActs, frameBody, List.append_assoc, accesses_append] at hq
  obtain ⟨hstages, hrest⟩ := List.forall_mem_append.mp hq
  have hpainted := h.schedule hsprites hstages
  rw [runUnpainted_eq, frameActs, frameBody, List.append_assoc, performAll_append]
  generalize (frameStages : List (Stage T)).foldl (Brush.stage given slot) brush = painted
    at hpainted ⊢
  exact hpainted.performAll hsprites hrest

/-- In the second of two frames during which the processor leaves the registers of the picture unit
alone, the screen is a window onto the four nametables: as it is presented, and as the frame ends.
The bytes that a transfer copies to sprite memory count as accesses of the processor. -/
theorem second_frame_word (console : Console T Nrom A D)
    (hfirst : ∀ access ∈ console.accesses console.frameActs, access.Quiet)
    (hsecond : ∀ access ∈ console.runUnpainted.accesses console.runUnpainted.frameActs,
      access.Quiet)
    (hshown : console.bus.ppu.mask.showBackground = true)
    (hsprites : console.bus.ppu.mask.showSprites = false)
    (ht : console.bus.ppu.t.coarseY.toNat ≤ 29) (x : Fin 256) (y : Fin 240) :
    console.runUnpainted.runPicture.bus.ppu.frame.word x y =
        console.bus.ppu.backgroundWord console.bus.cartridge x y ∧
      console.runUnpainted.runUnpainted.bus.ppu.frame.word x y =
        console.bus.ppu.backgroundWord console.bus.cartridge x y := by
  have hhere : console.PaintsAt console.bus.ppu console.bus.cartridge
      ⟨console.bus.ppu.v, console.bus.ppu.background, console.bus.ppu.frame,
        console.bus.ppu.rendering⟩ := by
    constructor <;> rfl
  have hstart := hhere.runUnpainted hsprites hfirst
  have hat := Brush.at_frameStages (T := T) console.bus.cartridge
    ⟨console.bus.ppu.v, console.bus.ppu.background, console.bus.ppu.frame,
      console.bus.ppu.rendering⟩ hshown ht
  have hon := (Brush.rendering_frameStages (T := T) console.bus.cartridge
    ⟨console.bus.ppu.v, console.bus.ppu.background, console.bus.ppu.frame,
      console.bus.ppu.rendering⟩).trans (Mask.rendering_of_showBackground hshown)
  generalize (frameStages : List (Stage T)).foldl
    (Brush.stage console.bus.ppu console.bus.cartridge) _ = brush at hstart hat hon
  have hword : ((pictureStages : List (Stage T)).foldl
      (Brush.stage console.bus.ppu console.bus.cartridge) brush).frame.word x y =
      console.bus.ppu.backgroundWord console.bus.cartridge x y := by
    rw [← Brush.rowWord_eq, ← Brush.word_screenStages (T := T) hat (VramAddress.row_lt ht) hon
      hshown, Brush.frame_pictureStages]
  have hpicture := hstart.runPicture hsprites hsecond
  have hframe := hstart.runUnpainted hsprites hsecond
  rw [hpicture.frame, hframe.frame, Brush.frame_frameStages]
  exact ⟨hword, hword⟩

end Console

end

/-! ## A processor that waits -/

/-- JMP $8000; the image repeats, so that the start address is there, too. -/
def waitingProgram : Array UInt8 := #[0x4C, 0x00, 0x80]

/-- The processor waits, and nothing interrupts it. -/
structure Waits {T D : Type} (cpu : Cpu T) (bus : Bus Nrom SilentApu D) : Prop
    extends Undisturbed waitingProgram cpu bus where
  pc : cpu.registers.pc = 0x8000

namespace Waits

variable {T D : Type} [Controller D]

/-- On a recorder, a round reads the instruction, and nothing else. -/
theorem advance {cpu : Cpu T} {recorder : Recorder (Bus Nrom SilentApu D)}
    (h : Waits cpu recorder.bus) (hquiet : ∀ access ∈ recorder.accesses, access.Quiet) :
    Waits (cpu.advance recorder).1 (cpu.advance recorder).2.bus ∧
      ∀ access ∈ (cpu.advance recorder).2.accesses, access.Quiet := by
  rw [h.advance_jump h.pc (by decide) (by decide) (by decide) rfl rfl rfl]
  refine ⟨⟨⟨⟨h.program, h.jammed, h.dmaPage, h.nmiPending⟩, h.nmiEnabled⟩, rfl⟩, ?_⟩
  simp only [List.forall_mem_cons, Access.Quiet, Access.address]
  exact ⟨by decide, by decide, by decide, hquiet⟩

variable [Time T] {console : Console T Nrom SilentApu D}

/-- Whatever happens in a frame, the processor goes on waiting and leaves the registers of the
picture unit alone. -/
theorem act (h : Waits console.cpu console.bus) (a : FrameAct T) :
    Waits (console.act a).cpu (console.act a).bus ∧
      ∀ access ∈ console.accessesOf a, access.Quiet := by
  cases a with
  | runCpu limit =>
    have hstart : Waits console.cpu (Recorder.start console.bus).bus ∧
        ∀ access ∈ (Recorder.start console.bus).accesses, access.Quiet := ⟨h, nofun⟩
    obtain ⟨hlater, hquiet⟩ := Cpu.runTo_induction
      (P := fun cpu (recorder : Recorder (Bus Nrom SilentApu D)) =>
        Waits cpu recorder.bus ∧ ∀ access ∈ recorder.accesses, access.Quiet)
      (fun _ _ hp (_ : Cpu.Due _ limit) => hp.1.advance hp.2) hstart
    have hbare := Recorder.busMap_bus.runTo console.cpu (Recorder.start console.bus) limit
    refine ⟨?_, hquiet⟩
    show Waits (console.cpu.runTo (Recorder.start console.bus).bus limit).1
      (console.cpu.runTo (Recorder.start console.bus).bus limit).2
    rw [hbare]
    exact hlater
  | perform line event => exact ⟨⟨h.toUndisturbed.perform event.step, h.pc⟩, nofun⟩
  | beginVblank => exact ⟨⟨h.toUndisturbed.beginVblank, h.pc⟩, nofun⟩
  | answerNmi =>
    refine ⟨?_, ?_⟩
    · unfold Console.act
      rw [h.answerNmi_eq]
      exact h
    · unfold Console.accessesOf Cpu.nmiAccesses
      rw [Executes.answerNmi_recorded h.toExecutes]
      exact nofun
  | endVblank => exact ⟨⟨h.toUndisturbed.endVblank, h.pc⟩, nofun⟩
  | enter phase => exact ⟨h, nofun⟩
  | close => exact ⟨⟨⟨⟨h.program, h.jammed, h.dmaPage, h.nmiPending⟩, h.nmiEnabled⟩, h.pc⟩, nofun⟩

theorem performAll (h : Waits console.cpu console.bus) (acts : List (FrameAct T)) :
    Waits (console.performAll acts).cpu (console.performAll acts).bus ∧
      ∀ access ∈ console.accesses acts, access.Quiet := by
  induction acts generalizing console with
  | nil => exact ⟨h, nofun⟩
  | cons a acts ih =>
    obtain ⟨hnext, hfirst⟩ := h.act a
    obtain ⟨hlast, hrest⟩ := ih hnext
    exact ⟨hlast, List.forall_mem_append.mpr ⟨hfirst, hrest⟩⟩

end Waits

namespace Console

/-- A console whose processor waits, and whose board is filled with tiles of which only the leftmost
column is opaque. The background shows, but not on the left, and begins at the fourth pixel column
of the last tile but one in the last row of the upper right nametable. -/
def stripedScreen : Console ℚ Nrom SilentApu Unplugged :=
  let console : Console ℚ Nrom SilentApu Unplugged :=
    .new (.new waitingProgram #[0x80] .horizontal) .new ⟨⟩ ⟨⟩ .default
  { console with
    bus.ppu.mask := ⟨0x28⟩
    bus.ppu.rendering := true
    bus.ppu.t := 0x07BE
    bus.ppu.fineX := ⟨3, by decide⟩
    bus.ppu.palette := console.bus.ppu.palette.store 3 0x16 }

theorem waits_stripedScreen : Waits stripedScreen.cpu stripedScreen.bus where
  program := rfl
  jammed := rfl
  dmaPage := rfl
  nmiPending := rfl
  nmiEnabled := rfl
  pc := rfl

/-- The second frame of that console: the first stripe is hidden, the second is not. -/
theorem word_stripedScreen :
    let frame := stripedScreen.runUnpainted.runUnpainted.bus.ppu.frame
    frame.word 5 239 = 0x40 ∧ frame.word 12 239 = 0x40 ∧ frame.word 13 239 = 0x56 := by
  intro frame
  obtain ⟨hwaits, hfirst⟩ := waits_stripedScreen.performAll stripedScreen.frameActs
  rw [← runUnpainted_eq] at hwaits
  have hsecond := (hwaits.performAll stripedScreen.runUnpainted.frameActs).2
  have hword (x : Fin 256) :=
    (second_frame_word stripedScreen hfirst hsecond rfl rfl (by decide +kernel) x 239).2
  refine ⟨(hword 5).trans ?_, (hword 12).trans ?_, (hword 13).trans ?_⟩
  all_goals decide +kernel

end Console

end Famicom
