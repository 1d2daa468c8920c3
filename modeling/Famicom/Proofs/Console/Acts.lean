import Famicom.Console.Frame
import Famicom.Proofs.Cpu.Access

/-!
# A frame as a list of acts

A frame is a fixed sequence of stages: a stage is a line of the schedule or a few acts. What a line
does depends on whether the unit renders at its head, so the acts of a frame follow from the console
that it begins with: `Console.frameActs`.

* `runUnpainted_eq`, `runPicture_eq`: a frame performs its acts, one after the other.
* `frameCount_runUnpainted`: a frame counts once.
* `schedule_append`: the acts of two parts of a frame.
* `Console.accesses`: what the processor accesses during some acts.
-/

namespace Famicom

/-- One of the things that make up a frame. -/
inductive FrameAct (T : Type) where
  /-- The frame enters a phase. -/
  | enter (phase : Phase)
  /-- The processor runs up to a time within the frame. -/
  | runCpu (limit : T)
  /-- The picture unit performs a step that is due on a line. -/
  | perform (line : Line) (event : Event)
  /-- The flag of vertical blanking rises. -/
  | beginVblank
  /-- The processor answers the interrupt of vertical blanking. -/
  | answerNmi
  /-- The flags of the picture are cleared. -/
  | endVblank
  /-- The frame is taken off the cycle counter. -/
  | close

/-- A stage of a frame. -/
inductive Stage (T : Type) where
  | acts (acts : List (FrameAct T))
  | line (line : Line)

section

variable {T : Type} [Time T]

/-- The acts of an event: the processor runs to its dot, and its step is performed. -/
def Line.actsOf (line : Line) (event : Event) : List (FrameAct T) :=
  [.runCpu (FrameTime.ofDot line.number event.dot), .perform line event]

/-- The acts of a line. -/
def Line.acts (line : Line) (rendering : Bool) : List (FrameAct T) :=
  (line.events rendering).flatMap line.actsOf

/-- The acts of a stage, given whether the unit renders at its head. -/
def Stage.unfold (rendering : Bool) : Stage T → List (FrameAct T)
  | .acts given => given
  | .line given => given.acts rendering

/-- The stages of the picture's lines. -/
def screenStages : List (Stage T) :=
  (List.finRange 240).flatMap fun y => [.acts [.enter (.visible y)], .line (.visible y)]

/-- The stages up to the beginning of vertical blanking. -/
def pictureStages : List (Stage T) :=
  screenStages ++
    [.acts
      [.enter .postRender, .runCpu (FrameTime.ofDot Line.postRender 0), .enter .vblank,
        .runCpu (FrameTime.ofDot Line.vblank 1), .beginVblank]]

/-- The stages from vertical blanking to the last step of the picture unit. -/
def blankingStages : List (Stage T) :=
  [.acts
    [.enter .preRender, .runCpu (FrameTime.ofDot Line.preRender.number 1), .endVblank],
    .line .preRender]

/-- The stages before the schedule of the line before the picture. -/
def earlyStages : List (Stage T) :=
  pictureStages ++
    [.acts [.answerNmi],
      .acts [.enter .preRender, .runCpu (FrameTime.ofDot Line.preRender.number 1), .endVblank]]

/-- The stages of a frame. -/
def frameStages : List (Stage T) := pictureStages ++ .acts [.answerNmi] :: blankingStages

end

namespace Console

variable {T C A D : Type} [Time T] [Cartridge C] [Apu A] [Controller D]

/-- Perform an act. -/
def act (console : Console T C A D) : FrameAct T → Console T C A D
  | .enter phase => { console with phase }
  | .runCpu limit => console.runCpu limit
  | .perform _ event => console.performStep event.step
  | .beginVblank => { console with bus.ppu := console.bus.ppu.beginVblank }
  | .answerNmi =>
    let (cpu, bus) := console.cpu.answerNmi console.bus
    { console with cpu, bus }
  | .endVblank => { console with bus.ppu := console.bus.ppu.endVblank }
  | .close =>
    { console with
      cpu := console.cpu.endFrame FrameTime.frameCycles
      frameCount := console.frameCount + 1 }

/-- Perform acts, one after the other. -/
def performAll (console : Console T C A D) (acts : List (FrameAct T)) : Console T C A D :=
  acts.foldl act console

/-- The acts of some stages, given the console at their head. -/
def schedule (console : Console T C A D) : List (Stage T) → List (FrameAct T)
  | [] => []
  | stage :: rest =>
    let acts := stage.unfold console.bus.ppu.rendering
    acts ++ (console.performAll acts).schedule rest

/-- The acts of the frame that a console begins with, up to its last cycle. -/
def frameBody (console : Console T C A D) : List (FrameAct T) :=
  console.schedule frameStages ++ [.runCpu FrameTime.frameCycles]

/-- The acts of the frame that a console begins with. -/
def frameActs (console : Console T C A D) : List (FrameAct T) := console.frameBody ++ [.close]

/-- What the processor accesses in an act, the latest first. -/
def accessesOf (console : Console T C A D) : FrameAct T → List Access
  | .runCpu limit => console.cpu.accesses console.bus limit
  | .answerNmi => console.cpu.nmiAccesses console.bus
  | _ => []

/-- What the processor accesses in some acts, act by act. -/
def accesses (console : Console T C A D) : List (FrameAct T) → List Access
  | [] => []
  | a :: rest => console.accessesOf a ++ (console.act a).accesses rest

/-! ## Performing acts -/

@[simp] theorem performAll_nil (console : Console T C A D) : console.performAll [] = console := rfl

@[simp] theorem performAll_cons (console : Console T C A D) (a : FrameAct T)
    (acts : List (FrameAct T)) :
    console.performAll (a :: acts) = (console.act a).performAll acts := rfl

@[simp] theorem performAll_append (console : Console T C A D) (acts acts' : List (FrameAct T)) :
    console.performAll (acts ++ acts') = (console.performAll acts).performAll acts' :=
  List.foldl_append

/-- A property that every act of a list keeps is kept by the list. -/
theorem performAll_induction {P : Console T C A D → Prop} {acts : List (FrameAct T)}
    (keep : ∀ a ∈ acts, ∀ console, P console → P (console.act a)) {console : Console T C A D}
    (h : P console) : P (console.performAll acts) := by
  induction acts generalizing console with
  | nil => exact h
  | cons a acts ih =>
    have ha := keep a (List.mem_cons_self ..) console h
    exact ih (fun b hb => keep b (.tail _ hb)) ha

theorem accesses_append (console : Console T C A D) (acts acts' : List (FrameAct T)) :
    console.accesses (acts ++ acts') =
      console.accesses acts ++ (console.performAll acts).accesses acts' := by
  induction acts generalizing console with
  | nil => rfl
  | cons a acts ih => simp only [List.cons_append, accesses, ih, List.append_assoc, performAll_cons]

/-- A halted processor stays halted and accesses nothing. -/
theorem act_of_jammed {console : Console T C A D} (h : console.cpu.jammed = true) (a : FrameAct T) :
    (console.act a).cpu.jammed = true ∧ console.accessesOf a = [] := by
  cases a with
  | runCpu limit => exact Cpu.runTo_of_jammed h console.bus limit
  | answerNmi =>
    have hnmi := Cpu.answerNmi_of_jammed h console.bus
    have hrecorded := Cpu.answerNmi_of_jammed h (Recorder.start console.bus)
    refine ⟨?_, congrArg (·.2.accesses) hrecorded⟩
    show (console.cpu.answerNmi console.bus).1.jammed = true
    rw [hnmi]
    exact h
  | _ => exact ⟨h, rfl⟩

theorem jammed_performAll {console : Console T C A D} (h : console.cpu.jammed = true)
    (acts : List (FrameAct T)) : (console.performAll acts).cpu.jammed = true :=
  performAll_induction (P := fun console => console.cpu.jammed = true)
    (fun a _ _ h => (act_of_jammed h a).1) h

theorem accesses_of_jammed {console : Console T C A D} (h : console.cpu.jammed = true)
    (acts : List (FrameAct T)) : console.accesses acts = [] := by
  induction acts generalizing console with
  | nil => rfl
  | cons a acts ih =>
    obtain ⟨hnext, hnone⟩ := act_of_jammed h a
    rw [accesses, hnone, ih hnext]
    rfl

/-! ## Stages -/

theorem schedule_append (console : Console T C A D) (stages stages' : List (Stage T)) :
    console.schedule (stages ++ stages') =
      console.schedule stages ++
        (console.performAll (console.schedule stages)).schedule stages' := by
  induction stages generalizing console with
  | nil => rfl
  | cons stage stages ih =>
    simp only [List.cons_append, schedule, ih, List.append_assoc, performAll_append]

/-- Every act of some stages is an act of one of them. -/
theorem mem_schedule {console : Console T C A D} {stages : List (Stage T)} {a : FrameAct T}
    (h : a ∈ console.schedule stages) :
    ∃ stage ∈ stages, ∃ rendering, a ∈ stage.unfold rendering := by
  induction stages generalizing console with
  | nil => cases h
  | cons stage stages ih =>
    rcases List.mem_append.mp h with h | h
    · exact ⟨stage, List.mem_cons_self .., _, h⟩
    · obtain ⟨later, hmem, hlater⟩ := ih h
      exact ⟨later, .tail _ hmem, hlater⟩

/-- What a stage does whether or not the unit renders is an act of the stages. -/
theorem mem_schedule_of_mem (console : Console T C A D) {stages : List (Stage T)}
    {stage : Stage T} {a : FrameAct T} (hstage : stage ∈ stages)
    (h : ∀ rendering, a ∈ stage.unfold rendering) : a ∈ console.schedule stages := by
  induction stages generalizing console with
  | nil => cases hstage
  | cons first stages ih =>
    rcases List.mem_cons.mp hstage with rfl | hlater
    · exact List.mem_append_left _ (h _)
    · exact List.mem_append_right _ (ih _ hlater)

/-- What comes before an act of some stages are the stages before it, and a part of its own. -/
theorem prefix_schedule {console : Console T C A D} {stages : List (Stage T)}
    {done : List (FrameAct T)} {a : FrameAct T} (h : done ++ [a] <+: console.schedule stages) :
    ∃ before stage after earlier, stages = before ++ stage :: after ∧
      done = console.schedule before ++ earlier ∧
      earlier ++ [a] <+:
        stage.unfold (console.performAll (console.schedule before)).bus.ppu.rendering := by
  induction stages generalizing console done with
  | nil => simp [schedule] at h
  | cons stage stages ih =>
    let acts := stage.unfold console.bus.ppu.rendering
    have hacts : acts <+: console.schedule (stage :: stages) := List.prefix_append _ _
    by_cases hhere : done ++ [a] <+: acts
    · exact ⟨[], stage, stages, done, rfl, rfl, hhere⟩
    have hpast : acts <+: done := by
      rcases List.prefix_concat_iff.mp
        ((List.prefix_or_prefix_of_prefix h hacts).resolve_left hhere) with heq | hpast
      · exact absurd (heq ▸ List.prefix_refl _) hhere
      · exact hpast
    obtain ⟨later, rfl⟩ := hpast
    rw [schedule, List.append_assoc, List.prefix_append_right_inj] at h
    obtain ⟨before, target, after, earlier, rfl, rfl, hearlier⟩ := ih h
    refine ⟨stage :: before, target, after, earlier, rfl, ?_, ?_⟩
    · exact (List.append_assoc _ _ _).symm
    · rw [schedule, performAll_append]
      exact hearlier

/-- A relation between acts holds along some stages if it holds within each of them and from each
to the later ones. -/
theorem pairwise_schedule {R : FrameAct T → FrameAct T → Prop} {stages : List (Stage T)}
    (within : ∀ stage ∈ stages, ∀ rendering, (stage.unfold rendering).Pairwise R)
    (across : stages.Pairwise fun stage later => ∀ rendering rendering',
      ∀ a ∈ stage.unfold rendering, ∀ b ∈ later.unfold rendering', R a b)
    (console : Console T C A D) : (console.schedule stages).Pairwise R := by
  induction stages generalizing console with
  | nil => exact .nil
  | cons stage stages ih =>
    obtain ⟨hfirst, hrest⟩ := List.pairwise_cons.mp across
    refine List.pairwise_append.mpr ⟨within stage (List.mem_cons_self ..) _, ?_, ?_⟩
    · exact ih (fun s hs => within s (.tail _ hs)) hrest _
    · intro a ha b hb
      obtain ⟨later, hlater, rendering', hmem⟩ := mem_schedule hb
      exact hfirst later hlater _ rendering' a ha b hmem

/-- Perform a stage. -/
def runStage (console : Console T C A D) (stage : Stage T) : Console T C A D :=
  console.performAll (stage.unfold console.bus.ppu.rendering)

theorem performAll_schedule (console : Console T C A D) (stages : List (Stage T)) :
    console.performAll (console.schedule stages) = stages.foldl runStage console := by
  induction stages generalizing console with
  | nil => rfl
  | cons stage stages ih =>
    rw [schedule, performAll_append, ih]
    rfl

/-! ## The parts of a frame -/

theorem frameStages_eq : (frameStages : List (Stage T)) = earlyStages ++ [.line .preRender] := by
  rw [frameStages, earlyStages, List.append_assoc]
  rfl

/-- The console at the head of the line before the picture. -/
def preRenderHead (console : Console T C A D) : Console T C A D :=
  console.performAll (console.schedule earlyStages)

/-- The acts of a frame: those before the line before the picture, those of the line, and the
end. -/
theorem frameActs_eq (console : Console T C A D) :
    console.frameActs =
      console.schedule earlyStages ++
        (Line.preRender.acts console.preRenderHead.bus.ppu.rendering ++
          [.runCpu FrameTime.frameCycles, .close]) := by
  rw [frameActs, frameBody, frameStages_eq, schedule_append, List.append_assoc, List.append_assoc,
    schedule, schedule, List.append_nil]
  rfl

/-- The frame stays open up to its last cycle. -/
theorem close_notMem_frameBody (console : Console T C A D) : .close ∉ console.frameBody := by
  intro h
  have hstages : .close ∈ console.schedule frameStages := by simpa [frameBody] using h
  obtain ⟨stage, hstage, rendering, hmem⟩ := mem_schedule hstages
  simp only [frameStages, pictureStages, screenStages, blankingStages, List.mem_append,
    List.mem_flatMap, List.mem_cons, List.not_mem_nil, or_false] at hstage
  obtain (⟨y, -, rfl | rfl⟩ | rfl) | rfl | rfl | rfl := hstage
  all_goals simp [Stage.unfold, Line.acts, Line.actsOf] at hmem

theorem runLine_eq (console : Console T C A D) (line : Line) :
    console.runLine line = console.runStage (.line line) := by
  unfold runLine runStage performAll
  simp only [Stage.unfold, Line.acts, List.foldl_flatMap]
  rfl

theorem beginVblank_eq (console : Console T C A D) :
    console.beginVblank = console.performAll [.beginVblank, .answerNmi] := by
  simp only [beginVblank, performAll_cons, performAll_nil, act, Cpu.answerNmi]
  split <;> rfl

/-- The lines of the picture are its stages. -/
theorem foldl_runVisible (console : Console T C A D) :
    (List.finRange 240).foldl runVisible console = screenStages.foldl runStage console := by
  rw [screenStages, List.foldl_flatMap]
  congr 1
  funext console y
  simp only [runVisible, runLine_eq]
  rfl

/-- The picture is complete once its interrupt has been answered. -/
theorem runPicture_eq (console : Console T C A D) :
    console.runPicture =
      (console.performAll (console.schedule pictureStages)).act .answerNmi := by
  have hlines : Fin.foldl 240 runVisible console = screenStages.foldl runStage console := by
    rw [Fin.foldl_eq_finRange_foldl, foldl_runVisible]
  rw [performAll_schedule, pictureStages, List.foldl_append, ← hlines]
  simp only [runPicture, beginVblank_eq]
  generalize Fin.foldl 240 runVisible console = console
  rfl

/-- A frame performs its acts. -/
theorem runUnpainted_eq (console : Console T C A D) :
    console.runUnpainted = console.performAll console.frameActs := by
  have hblanking (c : Console T C A D) :
      c.runBlanking = (blankingStages.foldl runStage c).performAll
        [.runCpu FrameTime.frameCycles, .close] := by
    simp only [runBlanking, runLine_eq]
    rfl
  rw [runUnpainted, runPicture_eq, hblanking, frameActs, frameBody, List.append_assoc,
    performAll_append, performAll_schedule, performAll_schedule, frameStages, List.foldl_append,
    List.foldl_cons]
  generalize List.foldl runStage console pictureStages = console
  rfl

/-- What follows the head of the line before the picture. -/
theorem runUnpainted_preRenderHead (console : Console T C A D) :
    console.runUnpainted = console.preRenderHead.performAll
      (Line.preRender.acts console.preRenderHead.bus.ppu.rendering ++
        [.runCpu FrameTime.frameCycles, .close]) := by
  rw [runUnpainted_eq, frameActs_eq, performAll_append]
  rfl

/-- At the head of that line, the flags have just been cleared. -/
theorem status_preRenderHead (console : Console T C A D) :
    console.preRenderHead.bus.ppu.status = .clear := by
  unfold preRenderHead
  rw [earlyStages, schedule_append, performAll_append]
  rfl

/-! ## Counting -/

/-- Only the end of a frame counts. -/
theorem frameCount_act (console : Console T C A D) {a : FrameAct T} (ha : a ≠ .close) :
    (console.act a).frameCount = console.frameCount := by
  cases a with
  | close => exact absurd rfl ha
  | _ => rfl

theorem frameCount_runUnpainted (console : Console T C A D) :
    console.runUnpainted.frameCount = console.frameCount + 1 := by
  have hbody : (console.performAll console.frameBody).frameCount = console.frameCount :=
    performAll_induction (P := fun c => c.frameCount = console.frameCount)
      (fun a ha c hc => by
        have hne : a ≠ .close := fun heq => console.close_notMem_frameBody (heq ▸ ha)
        exact (c.frameCount_act hne).trans hc)
      rfl
  rw [runUnpainted_eq, frameActs, performAll_append]
  exact congrArg (· + 1) hbody

end Console

end Famicom
