import Mathlib.Data.List.Induction
import Famicom.Proofs.Console.Lockstep
import Famicom.Proofs.Console.Painting

/-!
# Every frame is painted anew

The lines of the picture draw every pixel, whether the unit renders or not, and nothing that the
console does depends on the picture. So what a frame shows does not depend on what an earlier one
has left.

* `PpuStep.run_withFrame`, `Console.act_withFrame`: how a step and an act change a picture.
* `word_performAll`: acts that draw a pixel give it a word that they alone decide.
* `frame_repaints`: a frame forgets the picture that it begins with.
-/

namespace Famicom

/-- A picture is the words at its columns and lines. -/
theorem Frame.ext_word {frame frame' : Frame} (h : ∀ x y, frame.word x y = frame'.word x y) :
    frame = frame' := by
  have hwords : frame.words = frame'.words := by
    refine Vector.ext fun i hi => ?_
    have hposition : position ⟨i % 256, by omega⟩ ⟨i / 256, by omega⟩ = ⟨i, hi⟩ :=
      Fin.ext (Nat.div_add_mod i 256)
    have hword := h ⟨i % 256, by omega⟩ ⟨i / 256, by omega⟩
    unfold word at hword
    rwa [hposition] at hword
  exact congrArg Frame.mk hwords

namespace Ppu

/-- The unit with another picture. -/
def withFrame (ppu : Ppu) (frame : Frame) : Ppu := { ppu with frame }

/-- The word that the unit draws at a column of any line. -/
def wordAt (ppu : Ppu) (x : Fin 256) : UInt16 :=
  pixelWord (ppu.colorAt (tileOf x) (dotOf x)) ppu.emphasis

/-- Drawing a tile column changes its eight words on the line. -/
theorem word_drawTile (ppu : Ppu) (line : Fin 240) (tile : Fin 32) (x : Fin 256) (y : Fin 240) :
    (ppu.drawTile line tile).frame.word x y =
      if y = line ∧ tileOf x = tile then ppu.wordAt x else ppu.frame.word x y := by
  have hcolors (i : Fin 8) : (Vector.ofFn (ppu.colorAt tile)).get i = ppu.colorAt tile i :=
    Vector.getElem_ofFn i.isLt
  have htile : tileOf x = tile ↔ x.val / 8 = tile := Fin.ext_iff
  unfold drawTile
  simp only [hcolors]
  rw [Frame.word_drawColumn]
  by_cases hdrawn : y = line ∧ tileOf x = tile
  · rw [if_pos hdrawn, if_pos ⟨hdrawn.1, htile.mp hdrawn.2⟩, wordAt, hdrawn.2]
  · rw [if_neg hdrawn, if_neg fun h => hdrawn ⟨h.1, htile.mpr h.2⟩]

/-- The unit looks at no picture to fetch a sprite. -/
theorem fetchSprite_withFrame {C : Type} [Cartridge C] (ppu : Ppu) (cartridge : C) (slot : Nat)
    (frame : Frame) :
    (ppu.withFrame frame).fetchSprite cartridge slot =
      ((ppu.fetchSprite cartridge slot).1.withFrame frame,
        (ppu.fetchSprite cartridge slot).2) := by
  have hstart : (if slot = 0 then (ppu.withFrame frame).clearSpriteLine else ppu.withFrame frame) =
      (if slot = 0 then ppu.clearSpriteLine else ppu).withFrame frame := by
    split <;> rfl
  unfold fetchSprite
  rw [hstart]
  generalize (if slot = 0 then ppu.clearSpriteLine else ppu) = fetching
  dsimp only [withFrame]
  split
  · split <;> rfl
  · rfl

end Ppu

/-! ## Steps of the unit -/

/-- How a step changes a picture. -/
def PpuStep.paint (step : PpuStep) (ppu : Ppu) (frame : Frame) : Frame :=
  match step with
  | drawTile line tile => ((ppu.withFrame frame).drawTile line tile).frame
  | _ => frame

/-- A step does the same to the unit whatever the picture is. -/
theorem PpuStep.run_withFrame {C : Type} [Cartridge C] (step : PpuStep) (ppu : Ppu) (cartridge : C)
    (frame : Frame) :
    step.run (ppu.withFrame frame) cartridge =
      ((step.run ppu cartridge).1.withFrame (step.paint ppu frame),
        (step.run ppu cartridge).2) := by
  cases step with
  | fetchSprite slot => exact ppu.fetchSprite_withFrame cartridge slot frame
  | _ => rfl

/-- A step that draws a pixel decides what it shows, and any other leaves it alone. -/
theorem PpuStep.word_paint (step : PpuStep) (ppu : Ppu) (frame : Frame) (x : Fin 256)
    (y : Fin 240) :
    (step.paint ppu frame).word x y =
      if step = drawTile y (tileOf x) then ppu.wordAt x else frame.word x y := by
  cases step with
  | drawTile line tile =>
    have hstep : drawTile line tile = drawTile y (tileOf x) ↔ y = line ∧ tileOf x = tile := by
      rw [drawTile.injEq, eq_comm, @eq_comm _ tile]
    simp only [paint, hstep]
    exact (ppu.withFrame frame).word_drawTile line tile x y
  | _ => rfl

/-! ## The processor -/

namespace Ppu

variable {C : Type} [Cartridge C]

theorem readRegister_withFrame (ppu : Ppu) (cartridge : C) (address : UInt16) (frame : Frame) :
    (ppu.withFrame frame).readRegister cartridge address =
      ((ppu.readRegister cartridge address).1,
        (ppu.readRegister cartridge address).2.1.withFrame frame,
        (ppu.readRegister cartridge address).2.2) := by
  unfold readRegister
  dsimp only
  split
  · rfl
  split
  · rfl
  split
  · unfold readData
    dsimp only [withFrame]
    split <;> rfl
  · rfl

theorem writeScroll_withFrame (ppu : Ppu) (value : UInt8) (frame : Frame) :
    (ppu.withFrame frame).writeScroll value = (ppu.writeScroll value).withFrame frame := by
  cases hsecond : ppu.secondWrite <;> simp [writeScroll, withFrame, hsecond]

theorem writeAddress_withFrame (ppu : Ppu) (value : UInt8) (frame : Frame) :
    (ppu.withFrame frame).writeAddress value = (ppu.writeAddress value).withFrame frame := by
  cases hsecond : ppu.secondWrite <;> simp [writeAddress, withFrame, hsecond]

theorem writeVram_withFrame (ppu : Ppu) (cartridge : C) (address : UInt16) (value : UInt8)
    (frame : Frame) :
    (ppu.withFrame frame).writeVram cartridge address value =
      ((ppu.writeVram cartridge address value).1.withFrame frame,
        (ppu.writeVram cartridge address value).2) := by
  unfold writeVram
  dsimp only
  split
  · rfl
  split
  · split <;> rfl
  · rfl

theorem writeRegister_withFrame (ppu : Ppu) (cartridge : C) (address : UInt16) (value : UInt8)
    (frame : Frame) :
    (ppu.withFrame frame).writeRegister cartridge address value =
      ((ppu.writeRegister cartridge address value).1.withFrame frame,
        (ppu.writeRegister cartridge address value).2) := by
  let latched : Ppu := { ppu with ioLatch := value }
  have hscroll := latched.writeScroll_withFrame value frame
  have haddress := latched.writeAddress_withFrame value frame
  have hvram := latched.writeVram_withFrame cartridge ppu.v value frame
  unfold writeRegister
  dsimp only
  split
  · rfl
  split
  · rfl
  split
  · rfl
  split
  · rfl
  split
  · exact congrArg (·, cartridge) hscroll
  split
  · exact congrArg (·, cartridge) haddress
  split
  · exact congrArg (fun result : Ppu × C => (result.1.stepAddress, result.2)) hvram
  · rfl

end Ppu

namespace Bus

variable {C A D : Type} [Cartridge C] [Apu A] [Controller D]

/-- The bus with another picture. -/
def withFrame (bus : Bus C A D) (frame : Frame) : Bus C A D :=
  { bus with ppu := bus.ppu.withFrame frame }

theorem read_withFrame (bus : Bus C A D) (address : UInt16) (frame : Frame) :
    (bus.withFrame frame).read address =
      ((bus.read address).1, (bus.read address).2.withFrame frame) := by
  have hregister := bus.ppu.readRegister_withFrame bus.cartridge address frame
  unfold read
  split
  · rfl
  split
  · simp only [readPpu, withFrame, hregister]
  split
  · unfold readIo
    dsimp only
    split
    · rfl
    split
    · rfl
    split <;> rfl
  · rfl

theorem write_withFrame (bus : Bus C A D) (address : UInt16) (value : UInt8) (frame : Frame) :
    (bus.withFrame frame).write address value = (bus.write address value).withFrame frame := by
  have hregister := bus.ppu.writeRegister_withFrame bus.cartridge address value frame
  unfold write
  split
  · rfl
  split
  · simp only [writePpu, withFrame, hregister]
  split
  · unfold writeIo
    repeat' split
    all_goals rfl
  · rfl

/-- The processor does not notice the picture. -/
theorem busMap_withFrame (frame : Frame) : BusMap fun bus : Bus C A D => bus.withFrame frame where
  read bus address := bus.read_withFrame address frame
  write bus address value := bus.write_withFrame address value frame
  clock _ _ := rfl
  takeNmi _ := rfl
  irqLine _ := rfl
  takeDmaRequest _ := rfl
  writeOam _ _ := rfl

end Bus

/-! ## Acts of a frame -/

section

variable {T : Type}

/-- Whether an act draws a pixel. -/
def FrameAct.draws (x : Fin 256) (y : Fin 240) : FrameAct T → Bool
  | .perform _ event => event.step = .drawTile y (tileOf x)
  | _ => false

/-- Among the acts of some events, only those of an event that draws a pixel draw it. -/
theorem FrameAct.draws_eq_false [Time T] {line : Line} {events : List Event} {a : FrameAct T}
    (ha : a ∈ events.flatMap line.actsOf) {x : Fin 256} {y : Fin 240}
    (h : ∀ event ∈ events, event.step ≠ .drawTile y (tileOf x)) : a.draws x y = false := by
  obtain ⟨event, hevent, hact⟩ := List.mem_flatMap.mp ha
  simp only [Line.actsOf, List.mem_cons, List.not_mem_nil, or_false] at hact
  rcases hact with rfl | rfl
  · rfl
  · exact decide_eq_false (h event hevent)

/-- The act that draws a pixel on its line. -/
def FrameAct.drawing (x : Fin 256) (y : Fin 240) : FrameAct T :=
  .perform (.visible y) ⟨8 * tileOf x, .drawTile y (tileOf x)⟩

/-- A line of the picture draws its pixels whether the unit renders or not. -/
theorem Line.drawing_mem_acts [Time T] (x : Fin 256) (y : Fin 240) (rendering : Bool) :
    FrameAct.drawing x y ∈ ((visible y).acts rendering : List (FrameAct T)) := by
  have hsteps : .drawTile y (tileOf x) ∈ (visible y).tileSteps rendering (tileOf x) := by
    simp [tileSteps]
  have htiles : ⟨8 * tileOf x, .drawTile y (tileOf x)⟩ ∈ (visible y).tileEvents rendering :=
    List.mem_flatMap.mpr ⟨tileOf x, List.mem_finRange _, List.mem_map_of_mem hsteps⟩
  have hevents : ⟨8 * tileOf x, .drawTile y (tileOf x)⟩ ∈ (visible y).events rendering :=
    List.mem_append_left _ (List.mem_cons_of_mem _ htiles)
  exact List.mem_flatMap.mpr ⟨_, hevents, List.mem_cons_of_mem _ (List.mem_singleton_self _)⟩

end

namespace Console

variable {T C A D S : Type}

/-- The console with another picture. -/
def withFrame (console : Console T C A D) (frame : Frame) : Console T C A D :=
  { console with bus := console.bus.withFrame frame }

/-- Two consoles that differ in the picture alone. -/
def SameButFrame (console other : Console T C A D) : Prop :=
  ∃ frame, other = console.withFrame frame

theorem sameButFrame_withFrame (console : Console T C A D) (frame : Frame) :
    console.SameButFrame (console.withFrame frame) := ⟨frame, rfl⟩

variable [Time T] [Cartridge C] [Apu A] [Controller D] [VideoSink S]

/-- How an act changes a picture. -/
def paint (console : Console T C A D) (frame : Frame) : FrameAct T → Frame
  | .perform _ event => event.step.paint console.bus.ppu frame
  | _ => frame

/-- An act does the same to the console whatever the picture is. -/
theorem act_withFrame (console : Console T C A D) (a : FrameAct T) (frame : Frame) :
    (console.withFrame frame).act a = (console.act a).withFrame (console.paint frame a) := by
  have hprocessor := Bus.busMap_withFrame (C := C) (A := A) (D := D) frame
  cases a with
  | runCpu limit =>
    have hrun := hprocessor.runTo console.cpu console.bus limit
    simp only [act, runCpu, withFrame, hrun]
    rfl
  | answerNmi =>
    have hnmi := hprocessor.answerNmi console.cpu console.bus
    simp only [act, withFrame, hnmi]
    rfl
  | perform line event =>
    have hstep := event.step.run_withFrame console.bus.ppu console.bus.cartridge frame
    simp only [act, performStep, withFrame, Bus.withFrame, hstep]
    rfl
  | _ => rfl

/-- An act that draws a pixel decides what it shows, and any other leaves it alone. -/
theorem word_act (console : Console T C A D) (a : FrameAct T) (x : Fin 256) (y : Fin 240) :
    (console.act a).bus.ppu.frame.word x y =
      if a.draws x y then console.bus.ppu.wordAt x else console.bus.ppu.frame.word x y := by
  have hown := console.act_withFrame a console.bus.ppu.frame
  have hframe : (console.act a).bus.ppu.frame = console.paint console.bus.ppu.frame a :=
    congrArg (·.bus.ppu.frame) hown
  rw [hframe]
  cases a with
  | perform line event =>
    simp only [paint, FrameAct.draws, decide_eq_true_eq]
    exact event.step.word_paint console.bus.ppu console.bus.ppu.frame x y
  | _ => rfl

/-- Consoles that differ in the picture alone stay so, act by act. -/
theorem lockstep_sameButFrame :
    Lockstep (SameButFrame : Console T C A D → Console T C A D → Prop) where
  rendering := by
    rintro console - ⟨frame, rfl⟩
    rfl
  act := by
    rintro console - ⟨frame, rfl⟩ a
    exact ⟨_, console.act_withFrame a frame⟩

/-- Acts that draw a pixel decide what it shows: the last of them does. -/
theorem word_performAll (console : Console T C A D) {acts : List (FrameAct T)} {x : Fin 256}
    {y : Fin 240} (h : ∃ a ∈ acts, a.draws x y = true) :
    ∃ done a, done ++ [a] <+: acts ∧ a.draws x y = true ∧ ∀ frame,
      ((console.withFrame frame).performAll acts).bus.ppu.frame.word x y =
        (console.performAll done).bus.ppu.wordAt x := by
  induction acts using List.reverseRecOn with
  | nil => simp at h
  | append_singleton acts last ih =>
    by_cases hlast : last.draws x y = true
    · refine ⟨acts, last, List.prefix_refl _, hlast, fun frame => ?_⟩
      obtain ⟨left, hleft⟩ :=
        lockstep_sameButFrame.performAll (console.sameButFrame_withFrame frame) acts
      rw [performAll_append, performAll_cons, performAll_nil, word_act, if_pos hlast, hleft]
      rfl
    · have hearlier : ∃ a ∈ acts, a.draws x y = true := by
        obtain ⟨a, ha, hdraws⟩ := h
        rcases List.mem_append.mp ha with hbefore | hhere
        · exact ⟨a, hbefore, hdraws⟩
        · exact absurd (List.mem_singleton.mp hhere ▸ hdraws) hlast
      obtain ⟨done, a, hdone, hdraws, hword⟩ := ih hearlier
      refine ⟨done, a, hdone.trans (List.prefix_append _ _), hdraws, fun frame => ?_⟩
      rw [performAll_append, performAll_cons, performAll_nil, word_act, if_neg hlast]
      exact hword frame

/-- Acts that draw nothing leave the picture as it is. -/
theorem frame_performAll {console : Console T C A D} {acts : List (FrameAct T)}
    (h : ∀ a ∈ acts, ∀ x y, a.draws x y = false) :
    (console.performAll acts).bus.ppu.frame = console.bus.ppu.frame := by
  refine performAll_induction (P := fun c => c.bus.ppu.frame = console.bus.ppu.frame)
    (fun a ha c hc => ?_) rfl
  have hsame : (c.act a).bus.ppu.frame = c.bus.ppu.frame := by
    refine Frame.ext_word fun x y => ?_
    rw [word_act, h a ha x y]
    rfl
  exact hsame.trans hc

/-! ## Frames -/

/-- The stages after the lines of the picture. -/
theorem frameStages_eq_screen :
    (frameStages : List (Stage T)) =
      screenStages ++
        ([.acts
          [.enter .postRender, .runCpu (FrameTime.ofDot Line.postRender 0), .enter .vblank,
            .runCpu (FrameTime.ofDot Line.vblank 1), .beginVblank]] ++
          .acts [.answerNmi] :: blankingStages) := by
  rw [frameStages, pictureStages, List.append_assoc]

/-- After the lines of the picture, a frame draws nothing. -/
theorem frame_of_screen_done (console : Console T C A D) {done : List (FrameAct T)}
    (hscreen : console.schedule screenStages <+: done) (hdone : done <+: console.frameActs) :
    (console.performAll done).bus.ppu.frame =
      (console.performAll (console.schedule screenStages)).bus.ppu.frame := by
  obtain ⟨later, rfl⟩ := hscreen
  rw [frameActs, frameBody, frameStages_eq_screen, schedule_append, List.append_assoc,
    List.append_assoc, List.prefix_append_right_inj] at hdone
  rw [performAll_append]
  refine frame_performAll fun a ha x y => ?_
  have hmem := hdone.subset ha
  simp only [List.mem_append, List.mem_singleton] at hmem
  rcases hmem with hstages | rfl | rfl
  · obtain ⟨stage, hstage, rendering, hact⟩ := mem_schedule hstages
    simp only [blankingStages, List.mem_append, List.mem_cons, List.not_mem_nil, or_false] at hstage
    rcases hstage with rfl | rfl | rfl | rfl
    · simp only [Stage.unfold, List.mem_cons, List.not_mem_nil, or_false] at hact
      rcases hact with rfl | rfl | rfl | rfl | rfl <;> rfl
    · simp only [Stage.unfold, List.mem_cons, List.not_mem_nil, or_false] at hact
      subst hact
      rfl
    · simp only [Stage.unfold, List.mem_cons, List.not_mem_nil, or_false] at hact
      rcases hact with rfl | rfl | rfl <;> rfl
    · exact FrameAct.draws_eq_false hact fun _ hevent =>
        Line.step_ne_drawTile hevent y (tileOf x)
  · rfl
  · rfl

/-- The picture is complete after its lines. -/
theorem frame_runPicture (console : Console T C A D) :
    console.runPicture.bus.ppu.frame =
      (console.performAll (console.schedule screenStages)).bus.ppu.frame := by
  have hpicture : console.runPicture =
      console.performAll (console.schedule pictureStages ++ [.answerNmi]) := by
    rw [runPicture_eq, performAll_append]
    rfl
  have hscreen :
      console.schedule screenStages <+: console.schedule pictureStages ++ [.answerNmi] := by
    rw [pictureStages, schedule_append, List.append_assoc]
    exact List.prefix_append _ _
  have hframe : console.schedule pictureStages ++ [.answerNmi] <+: console.frameActs := by
    rw [frameActs, frameBody, frameStages, schedule_append, schedule, List.append_assoc,
      List.append_assoc, List.append_assoc, List.prefix_append_right_inj]
    exact List.prefix_append _ _
  rw [hpicture]
  exact console.frame_of_screen_done hscreen hframe

/-- What a pixel of the picture shows was drawn during its lines, whatever was there before. -/
theorem word_runPicture (console : Console T C A D) (x : Fin 256) (y : Fin 240) :
    ∃ done a, done ++ [a] <+: console.schedule screenStages ∧ a.draws x y = true ∧ ∀ frame,
      (console.withFrame frame).runPicture.bus.ppu.frame.word x y =
        (console.performAll done).bus.ppu.wordAt x := by
  have hstage : .line (.visible y) ∈ (screenStages : List (Stage T)) :=
    List.mem_flatMap.mpr ⟨y, List.mem_finRange _, by simp⟩
  have hdrawn : ∃ a ∈ console.schedule screenStages, a.draws x y = true :=
    ⟨.drawing x y, console.mem_schedule_of_mem hstage (Line.drawing_mem_acts x y),
      decide_eq_true rfl⟩
  obtain ⟨done, a, hdone, hdraws, hword⟩ := console.word_performAll hdrawn
  refine ⟨done, a, hdone, hdraws, fun frame => ?_⟩
  have hschedule :
      console.schedule screenStages = (console.withFrame frame).schedule screenStages :=
    lockstep_sameButFrame.schedule (console.sameButFrame_withFrame frame) screenStages
  rw [frame_runPicture, ← hschedule]
  exact hword frame

/-- The picture does not depend on an earlier one, nor does anything else. -/
theorem runPicture_withFrame (console : Console T C A D) (frame : Frame) :
    (console.withFrame frame).runPicture = console.runPicture := by
  obtain ⟨left, hleft⟩ :=
    lockstep_sameButFrame.runPicture (console.sameButFrame_withFrame frame)
  have hsame : left = console.runPicture.bus.ppu.frame := by
    have hframe : (console.withFrame frame).runPicture.bus.ppu.frame = left := by
      rw [hleft]
      rfl
    rw [← hframe]
    refine Frame.ext_word fun x y => ?_
    obtain ⟨done, a, -, -, hword⟩ := console.word_runPicture x y
    exact (hword frame).trans (hword console.bus.ppu.frame).symm
  rw [hleft, hsame]
  rfl

/-- A frame forgets the picture that it begins with: it leads to the same console and shows the
same, since its lines draw every pixel, and nothing draws after them. -/
theorem frame_repaints (console : Console T C A D) :
    (∀ frame, (console.withFrame frame).runUnpainted = console.runUnpainted) ∧
      (∀ frame (sink : S), (console.withFrame frame).runFrame sink = console.runFrame sink) ∧
      (∀ x y, ∃ done a, done ++ [a] <+: console.schedule screenStages ∧ a.draws x y = true ∧
        console.runPicture.bus.ppu.frame.word x y = (console.performAll done).bus.ppu.wordAt x) ∧
      ∀ done, console.schedule screenStages <+: done → done <+: console.frameActs →
        (console.performAll done).bus.ppu.frame = console.runPicture.bus.ppu.frame := by
  refine ⟨fun frame => ?_, fun frame sink => ?_, fun x y => ?_, fun done hscreen hdone => ?_⟩
  · rw [runUnpainted, runPicture_withFrame]
    rfl
  · simp only [runFrame, runPicture_withFrame]
  · obtain ⟨done, a, hdone, hdraws, hword⟩ := console.word_runPicture x y
    exact ⟨done, a, hdone, hdraws, hword console.bus.ppu.frame⟩
  · rw [frame_runPicture]
    exact console.frame_of_screen_done hscreen hdone

end Console

end Famicom
