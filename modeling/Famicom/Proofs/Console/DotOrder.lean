import Famicom.Proofs.Console.Drift

/-!
# Dot order

A step of the picture unit is due at a dot, and the processor must not have started an instruction
after that dot when the step is performed. The schedule keeps to this with one exception: on the
line before the picture, the two steps that return to the first row come after the fetch of the last
sprite, which is due later than both. The processor keeps to it unless an interrupt comes between
the begin of a round, which is in time, and its instruction.

* `frameActs_sorted`: how far the processor may have run when a step is performed.
* `inDotOrder_iff_of_halfCycle`: the exact condition for a frame to be in dot order.
* `halfCycle_of_reachable`: when the frames of a console begin.
-/

namespace Famicom

/-! ## The events of a line -/

/-- The dot up to which the processor has run when an event's step is performed. -/
def Event.reach (event : Event) : Nat := if event.step = .reloadRow then 312 else event.dot

namespace Line

theorem mem_tileEvents {line : Line} {rendering : Bool} {event : Event}
    (h : event ∈ line.tileEvents rendering) : event.dot ≤ 248 ∧ event.step ≠ .reloadRow := by
  simp only [tileEvents, List.mem_flatMap, List.mem_map] at h
  obtain ⟨tile, -, step, hstep, rfl⟩ := h
  refine ⟨by dsimp only; omega, ?_⟩
  rintro rfl
  cases line <;> cases rendering <;> simp [tileSteps] at hstep

theorem reach_of_mem_tileEvents {line : Line} {rendering : Bool} {event : Event}
    (h : event ∈ line.tileEvents rendering) : event.reach = event.dot :=
  if_neg (mem_tileEvents h).2

/-- Only the line before the picture returns to the first row, at two dots. -/
theorem of_reloadRow_mem {line : Line} {rendering : Bool} {dot : Nat}
    (h : ⟨dot, .reloadRow⟩ ∈ line.events rendering) :
    line = .preRender ∧ rendering = true ∧ (dot = 280 ∨ dot = 304) := by
  have htiles : ⟨dot, .reloadRow⟩ ∉ line.tileEvents rendering := fun h => (mem_tileEvents h).2 rfl
  cases rendering with
  | false => simp [events, htiles] at h
  | true =>
    cases line with
    | visible y => simp [events, closingEvents, htiles] at h
    | preRender => simpa [events, closingEvents, htiles] using h

/-- The processor has always run up to the dot of a step. -/
theorem dot_le_reach {line : Line} {rendering : Bool} {event : Event}
    (h : event ∈ line.events rendering) : event.dot ≤ event.reach := by
  obtain ⟨dot, step⟩ := event
  unfold Event.reach
  split
  · next hstep =>
    cases hstep
    obtain ⟨-, -, rfl | rfl⟩ := of_reloadRow_mem h <;> decide
  · exact Nat.le_refl _

theorem tileEvents_sorted (line : Line) (rendering : Bool) :
    (line.tileEvents rendering).Pairwise fun a b => a.dot ≤ b.dot := by
  unfold tileEvents
  rw [List.pairwise_flatMap]
  refine ⟨fun tile _ => ?_, (List.pairwise_lt_finRange 32).imp fun {i j} hlt a ha b hb => ?_⟩
  · rw [List.pairwise_map]
    exact List.pairwise_of_forall fun _ _ => Nat.le_refl _
  · obtain ⟨_, -, rfl⟩ := List.mem_map.mp ha
    obtain ⟨_, -, rfl⟩ := List.mem_map.mp hb
    exact Nat.mul_le_mul_left 8 (Nat.le_of_lt hlt)

theorem closingEvents_sorted (line : Line) :
    (line.closingEvents).Pairwise (fun a b => a.dot ≤ b.reach) ∧
      ∀ event ∈ line.closingEvents, 248 ≤ event.reach := by
  cases line with
  | visible y =>
    have heq : (visible y).closingEvents = (visible 0).closingEvents := rfl
    rw [heq]
    decide +kernel
  | preRender => decide +kernel

/-- The events of a line are sorted, up to the steps that return to the first row. -/
theorem events_sorted (line : Line) (rendering : Bool) :
    (line.events rendering).Pairwise fun a b => a.dot ≤ b.reach := by
  have htiles := (line.tileEvents_sorted rendering).imp_of_mem fun {a b} _ hb hle => by
    rw [← reach_of_mem_tileEvents hb] at hle
    exact hle
  have hclosing := line.closingEvents_sorted
  rw [events, List.cons_append, List.pairwise_cons, List.pairwise_append]
  refine ⟨fun event _ => Nat.zero_le _, htiles, ?_, ?_⟩
  · cases rendering with
    | true => exact hclosing.1
    | false => exact List.pairwise_singleton _ _
  · intro a ha b hb
    have hdot := (mem_tileEvents ha).1
    cases rendering with
    | true => exact hdot.trans (hclosing.2 b hb)
    | false =>
      rw [List.mem_singleton.mp hb]
      exact hdot

end Line

/-! ## How far the processor runs -/

/-- Whole and half cycles are the fractions of a cycle by which frames begin late. -/
def HalfCycle (offset : ℚ) : Prop := offset = 0 ∨ offset = 1 / 2

/-- An act that is not a run past the reach of a later step. -/
def FrameAct.Precedes (offset : ℚ) : FrameAct ℚ → FrameAct ℚ → Prop
  | .runCpu limit, .perform line event =>
    ⌊limit + offset⌋ ≤ ⌊FrameTime.ofDot line.number event.reach + offset⌋
  | _, _ => True

namespace FrameAct

variable {offset : ℚ} {line : Line} {rendering : Bool}

theorem precedes_line {a : FrameAct ℚ}
    (ha : ∀ limit, a = .runCpu limit →
      ⌊limit + offset⌋ ≤ ⌊FrameTime.ofDot line.number 0 + offset⌋) :
    ∀ b ∈ line.acts rendering, a.Precedes offset b := by
  intro b hb
  simp only [Line.acts, Line.actsOf, List.mem_flatMap, List.mem_cons] at hb
  obtain ⟨event, -, rfl | rfl | hnil⟩ := hb
  · cases a <;> trivial
  · cases a with
    | runCpu limit =>
      refine (ha limit rfl).trans (Int.floor_mono ?_)
      have hle : (FrameTime.ofDot line.number 0 : ℚ) ≤ FrameTime.ofDot line.number event.reach :=
        FrameTime.ofDot_le_ofDot (by omega)
      linarith
    | _ => trivial
  · cases hnil

/-- Within a line, no step is performed after a run past its reach. -/
theorem pairwise_acts : (line.acts rendering).Pairwise (Precedes offset) := by
  have hprecedes {a b : Event} (hle : a.dot ≤ b.reach) :
      Precedes offset (.runCpu (FrameTime.ofDot line.number a.dot)) (.perform line b) := by
    refine Int.floor_mono ?_
    have := FrameTime.ofDot_le_ofDot (show 341 * line.number + a.dot ≤ 341 * line.number + b.reach
      by omega)
    linarith
  unfold Line.acts
  rw [List.pairwise_flatMap]
  refine ⟨fun event hevent => ?_, (line.events_sorted rendering).imp fun {a b} hle x hx y hy => ?_⟩
  · rw [Line.actsOf, List.pairwise_pair]
    exact hprecedes (Line.dot_le_reach hevent)
  · simp only [Line.actsOf, List.mem_cons] at hx hy
    obtain rfl | rfl | hnil := hx
    · obtain rfl | rfl | hnil := hy
      · trivial
      · exact hprecedes hle
      · cases hnil
    · trivial
    · cases hnil

/-- Every limit of a line lies before the later lines. -/
theorem floor_limit_le {limit : ℚ} {dot : Nat} (h : .runCpu limit ∈ line.acts rendering)
    {later : Nat} (hlater : 341 * line.number + 328 ≤ 341 * later + dot) :
    ⌊limit + offset⌋ ≤ ⌊FrameTime.ofDot later dot + offset⌋ := by
  simp only [Line.acts, Line.actsOf, List.mem_flatMap, List.mem_cons, FrameAct.runCpu.injEq,
    reduceCtorEq,
    false_or] at h
  obtain ⟨event, hevent, rfl | hnil⟩ := h
  · refine Int.floor_mono ?_
    have hdot := Line.dot_le hevent
    have hle : (FrameTime.ofDot line.number event.dot : ℚ) ≤ FrameTime.ofDot later dot :=
      FrameTime.ofDot_le_ofDot (by omega)
    linarith
  · cases hnil

end FrameAct

/-- The dot at which the flags are cleared comes after the head of its line, but no cycle lies
between. -/
theorem floor_endVblank {offset : ℚ} (h : HalfCycle offset) :
    ⌊FrameTime.ofDot Line.preRender.number 1 + offset⌋ ≤
      ⌊FrameTime.ofDot Line.preRender.number 0 + offset⌋ := by
  rw [FrameTime.ofDot_exact, FrameTime.ofDot_exact]
  simp only [Line.number]
  rcases h with rfl | rfl <;> norm_num

/-- Acts without a step of the picture unit. -/
def Stage.Plain (stage : Stage ℚ) : Prop := ∃ acts, stage = .acts acts ∧ ∀ l e, .perform l e ∉ acts

/-- No step of the later stage is performed after a run of the earlier stage past its reach. -/
def Stage.Precedes (offset : ℚ) (stage later : Stage ℚ) : Prop :=
  ∀ rendering rendering', ∀ a ∈ stage.unfold rendering, ∀ b ∈ later.unfold rendering',
    a.Precedes offset b

namespace Stage

variable {offset : ℚ} {stage later : Stage ℚ}

theorem precedes_plain (h : later.Plain) : stage.Precedes offset later := by
  obtain ⟨acts, rfl, hplain⟩ := h
  intro _ _ a _ b hb
  cases b with
  | perform line event => exact absurd hb (hplain line event)
  | _ => cases a <;> trivial

theorem precedes_line {line : Line}
    (h : ∀ rendering limit, .runCpu limit ∈ stage.unfold rendering →
      ⌊limit + offset⌋ ≤ ⌊FrameTime.ofDot line.number 0 + offset⌋) :
    stage.Precedes offset (.line line) := by
  intro rendering _ a ha
  exact FrameAct.precedes_line fun limit heq => h rendering limit (heq ▸ ha)

theorem line_precedes_line {line line' : Line} (h : line.number < line'.number) :
    Stage.Precedes offset (.line line) (.line line') :=
  precedes_line fun _ _ hmem => FrameAct.floor_limit_le hmem (by omega)

theorem plain_enter (phase : Phase) : Stage.Plain (.acts [.enter phase]) :=
  ⟨_, rfl, fun _ _ h => by cases List.mem_singleton.mp h⟩

/-- The lines of the picture come one after the other. -/
theorem screenStages_sorted : screenStages.Pairwise (Precedes offset) := by
  have hline (y : Fin 240) (line : Line) :
      Precedes offset (.acts [.enter (.visible y)]) (.line line) :=
    precedes_line fun _ _ hmem => by cases List.mem_singleton.mp hmem
  unfold screenStages
  rw [List.pairwise_flatMap]
  refine ⟨fun y _ => ?_, (List.pairwise_lt_finRange 240).imp fun {y y'} hlt x hx z hz => ?_⟩
  · rw [List.pairwise_pair]
    exact hline y _
  · simp only [List.mem_cons] at hx hz
    obtain rfl | rfl | hnil := hz
    · exact precedes_plain (plain_enter _)
    · obtain rfl | rfl | hnil := hx
      · exact hline y _
      · exact line_precedes_line hlt
      · cases hnil
    · cases hnil

/-- No run before the schedule of the last line goes further than its head. -/
theorem precedes_preRender (h : HalfCycle offset)
    (hstage : stage ∈ earlyStages) : stage.Precedes offset (.line .preRender) := by
  have hle {line dot : Nat} (hdot : 341 * line + dot ≤ 341 * 261) :
      ⌊FrameTime.ofDot line dot + offset⌋ ≤ ⌊FrameTime.ofDot Line.preRender.number 0 + offset⌋ := by
    refine Int.floor_mono ?_
    have := FrameTime.ofDot_le_ofDot (show 341 * line + dot ≤ 341 * Line.preRender.number + 0
      from hdot)
    linarith
  simp only [earlyStages, pictureStages, screenStages, List.mem_append, List.mem_flatMap,
    List.mem_cons] at hstage
  obtain (⟨y, -, rfl | rfl | hnil⟩ | rfl | hnil) | rfl | rfl | hnil := hstage
  · exact precedes_line fun _ _ hmem => by cases List.mem_singleton.mp hmem
  · exact line_precedes_line (by simp only [Line.number]; omega)
  · cases hnil
  · refine precedes_line fun _ limit hmem => ?_
    simp only [unfold, List.mem_cons, FrameAct.runCpu.injEq, reduceCtorEq, false_or] at hmem
    obtain rfl | rfl | hnil := hmem
    · exact hle (by decide)
    · exact hle (by decide)
    · cases hnil
  · cases hnil
  · exact precedes_line fun _ _ hmem => by cases List.mem_singleton.mp hmem
  · refine precedes_line fun _ limit hmem => ?_
    simp only [unfold, List.mem_cons, FrameAct.runCpu.injEq, reduceCtorEq, false_or] at hmem
    obtain rfl | hnil := hmem
    · exact floor_endVblank h
    · cases hnil
  · cases hnil

/-- The stages that are not lines are without steps. -/
theorem plain_of_mem {acts : List (FrameAct ℚ)} (h : .acts acts ∈ frameStages) :
    Stage.Plain (.acts acts) := by
  refine ⟨acts, rfl, fun line event hmem => ?_⟩
  simp only [frameStages, pictureStages, screenStages, blankingStages, List.mem_append,
    List.mem_flatMap, List.mem_cons, Stage.acts.injEq, reduceCtorEq, List.not_mem_nil,
    or_false] at h
  obtain (⟨y, -, rfl⟩ | rfl) | rfl | rfl := h <;> simp at hmem

theorem frameStages_sorted (h : HalfCycle offset) : frameStages.Pairwise (Precedes offset) := by
  have hacts (stage : Stage ℚ) {acts : List (FrameAct ℚ)} (hmem : .acts acts ∈ frameStages) :
      stage.Precedes offset (.acts acts) := precedes_plain (plain_of_mem hmem)
  have hpicture : pictureStages.Pairwise (Precedes offset) := by
    refine List.pairwise_append.mpr ⟨screenStages_sorted, List.pairwise_singleton _ _, ?_⟩
    intro stage _ later hlater
    rw [List.mem_singleton.mp hlater]
    exact hacts stage (by simp [frameStages, pictureStages])
  rw [Console.frameStages_eq]
  refine List.pairwise_append.mpr ⟨?_, List.pairwise_singleton _ _, ?_⟩
  · refine List.pairwise_append.mpr ⟨hpicture, ?_, ?_⟩
    · rw [List.pairwise_pair]
      exact hacts _ (by simp [frameStages, blankingStages])
    · intro stage _ later hlater
      simp only [List.mem_cons, List.not_mem_nil, or_false] at hlater
      obtain rfl | rfl := hlater
      · exact hacts stage (by simp [frameStages])
      · exact hacts stage (by simp [frameStages, blankingStages])
  · intro stage hstage later hlater
    rw [List.mem_singleton.mp hlater]
    exact precedes_preRender h hstage

/-- Within a stage, no step is performed after a run past its reach. -/
theorem pairwise_unfold (hstage : stage ∈ frameStages) (rendering : Bool) :
    (stage.unfold rendering).Pairwise (FrameAct.Precedes offset) := by
  cases stage with
  | line line => exact FrameAct.pairwise_acts
  | acts acts =>
    have hself : Stage.Precedes offset (.acts acts) (.acts acts) :=
      precedes_plain (plain_of_mem hstage)
    exact List.pairwise_of_forall_mem_list fun a ha b hb => hself rendering rendering a ha b hb

end Stage

namespace Console

variable {C A D : Type} [Cartridge C] [Apu A] [Controller D]

/-- In a frame, no step is performed after a run past its reach. -/
theorem frameActs_sorted (console : Console ℚ C A D) {offset : ℚ} (h : HalfCycle offset) :
    console.frameActs.Pairwise (FrameAct.Precedes offset) := by
  have hbody : (console.schedule frameStages).Pairwise (FrameAct.Precedes offset) :=
    pairwise_schedule (fun _ hstage => Stage.pairwise_unfold hstage) (Stage.frameStages_sorted h)
      console
  have hend (a : FrameAct ℚ) : a.Precedes offset (.runCpu FrameTime.frameCycles) ∧
      a.Precedes offset .close := by
    cases a <;> exact ⟨trivial, trivial⟩
  rw [frameActs, frameBody, List.append_assoc]
  refine List.pairwise_append.mpr ⟨hbody, ?_, fun a _ b hb => ?_⟩
  · rw [List.singleton_append, List.pairwise_pair]
    exact (hend _).2
  · simp only [List.singleton_append, List.mem_cons] at hb
    obtain rfl | rfl | hnil := hb
    · exact (hend a).1
    · exact (hend a).2
    · cases hnil

/-! ## Rounds -/

/-- While it performs some acts, the processor begins a round at `cycle` in which an instruction
starts at `start`. -/
def Begins (console : Console ℚ C A D) : List (FrameAct ℚ) → Nat → Nat → Prop
  | [], _, _ => False
  | a :: rest, cycle, start =>
    (match a with
      | .runCpu limit => console.cpu.Begins console.bus limit cycle start
      | _ => False) ∨
    (console.act a).Begins rest cycle start

theorem begins_append (console : Console ℚ C A D) (acts acts' : List (FrameAct ℚ))
    (cycle start : Nat) :
    console.Begins (acts ++ acts') cycle start ↔
      console.Begins acts cycle start ∨ (console.performAll acts).Begins acts' cycle start := by
  induction acts generalizing console with
  | nil => simp only [List.nil_append, Begins, false_or, performAll_nil]
  | cons a acts ih => simp only [List.cons_append, Begins, ih, or_assoc, performAll_cons]

namespace Begins

variable {console : Console ℚ C A D} {acts : List (FrameAct ℚ)} {cycle start : Nat}

/-- A round begins under one of the limits. -/
theorem exists_limit (hopen : .close ∉ acts) (h : console.Begins acts cycle start) :
    ∃ limit, .runCpu limit ∈ acts ∧ (cycle : ℚ) ≤ limit + console.cpu.cycleOffset := by
  induction acts generalizing console with
  | nil => exact h.elim
  | cons a acts ih =>
    rcases h with h | h
    · cases a with
      | runCpu limit => exact ⟨limit, List.mem_cons_self .., h.le_limit⟩
      | _ => exact h.elim
    · obtain ⟨_, he⟩ := console.elapsed_act fun heq => hopen (heq ▸ List.mem_cons_self ..)
      obtain ⟨limit, hmem, hle⟩ := ih (fun hmem => hopen (.tail _ hmem)) h
      rw [he.cycleOffset] at hle
      exact ⟨limit, .tail _ hmem, hle⟩

/-- No round begins before the time at which the acts begin. -/
theorem cycle_le (hopen : .close ∉ acts) (h : console.Begins acts cycle start) :
    console.cpu.cycle ≤ cycle := by
  induction acts generalizing console with
  | nil => exact h.elim
  | cons a acts ih =>
    rcases h with h | h
    · cases a with
      | runCpu limit => exact Cpu.Begins.cycle_le h
      | _ => exact h.elim
    · obtain ⟨_, he⟩ := console.elapsed_act fun heq => hopen (heq ▸ List.mem_cons_self ..)
      have hle := ih (fun hmem => hopen (.tail _ hmem)) h
      rw [he.cycle] at hle
      exact (Nat.le_add_right _ _).trans hle

theorem cycle_le_start (h : console.Begins acts cycle start) : cycle ≤ start := by
  induction acts generalizing console with
  | nil => exact h.elim
  | cons a acts ih =>
    rcases h with h | h
    · cases a with
      | runCpu limit => exact Cpu.Begins.cycle_le_start h
      | _ => exact h.elim
    · exact ih h

end Begins

/-! ## The order of a frame -/

/-- In the next frame, every step comes before the instructions that start after its dot. -/
def InDotOrder (console : Console ℚ C A D) : Prop :=
  ∀ done line event, done ++ [.perform line event] <+: console.frameActs →
    ∀ cycle start, console.Begins done cycle start →
      (start : ℚ) ≤ FrameTime.ofDot line.number event.dot + console.cpu.cycleOffset

/-- The next frame renders its last line, and a round begins between the first return to the first
row and the last sprite of that line. -/
def ReloadsLate (console : Console ℚ C A D) : Prop :=
  console.preRenderHead.bus.ppu.rendering = true ∧
    ∃ cycle start, console.Begins console.frameActs cycle start ∧
      FrameTime.ofDot 261 280 + console.cpu.cycleOffset < cycle ∧
      (cycle : ℚ) ≤ FrameTime.ofDot 261 312 + console.cpu.cycleOffset

/-- In the next frame, an interrupt bridges the dot of a step: before the step, the round has begun
in time, but its instruction has not. -/
def InterruptedAtDot (console : Console ℚ C A D) : Prop :=
  ∃ done line event, done ++ [.perform line event] <+: console.frameActs ∧
    ∃ cycle start, console.Begins done cycle start ∧
      (cycle : ℚ) ≤ FrameTime.ofDot line.number event.dot + console.cpu.cycleOffset ∧
      FrameTime.ofDot line.number event.dot + console.cpu.cycleOffset < start

/-- When a step is performed, no round has begun after its reach. -/
theorem begins_le_reach {console : Console ℚ C A D} (h : HalfCycle console.cpu.cycleOffset)
    {done : List (FrameAct ℚ)} {line : Line} {event : Event}
    (hdone : done ++ [.perform line event] <+: console.frameActs) {cycle start : Nat}
    (hbegins : console.Begins done cycle start) :
    (cycle : ℚ) ≤ FrameTime.ofDot line.number event.reach + console.cpu.cycleOffset := by
  obtain ⟨limit, hmem, hle⟩ := hbegins.exists_limit fun hmem =>
    console.close_notMem_frameBody ((prefix_frameBody hdone).subset hmem)
  have hsorted := List.Pairwise.sublist hdone.sublist (console.frameActs_sorted h)
  have hprecedes : FrameAct.Precedes _ (.runCpu limit) (.perform line event) :=
    (List.pairwise_append.mp hsorted).2.2 _ hmem _ (List.mem_singleton_self _)
  have hcycle : (cycle : ℤ) ≤ ⌊limit + console.cpu.cycleOffset⌋ :=
    Int.le_floor.mpr (by exact_mod_cast hle)
  have hfloor : ((cycle : ℤ) : ℚ) ≤ FrameTime.ofDot line.number event.reach +
      console.cpu.cycleOffset := Int.le_floor.mp (hcycle.trans hprecedes)
  exact_mod_cast hfloor

/-- A frame that renders its last line fetches the last sprite before it returns to the first
row. -/
theorem frameBody_reload {console : Console ℚ C A D}
    (hrendering : console.preRenderHead.bus.ppu.rendering = true) :
    ∃ done rest, console.frameBody =
      done ++ [.runCpu (FrameTime.ofDot 261 312), .perform .preRender ⟨312, .fetchSprite 7⟩,
        .runCpu (FrameTime.ofDot 261 280)] ++ .perform .preRender ⟨280, .reloadRow⟩ :: rest := by
  have hevents : Line.preRender.events true =
      (Line.preRender.events true).take 41 ++
        ⟨312, .fetchSprite 7⟩ :: ⟨280, .reloadRow⟩ :: (Line.preRender.events true).drop 43 := rfl
  generalize (Line.preRender.events true).take 41 = before at hevents
  generalize (Line.preRender.events true).drop 43 = after at hevents
  refine ⟨console.schedule earlyStages ++ before.flatMap Line.preRender.actsOf,
    after.flatMap Line.preRender.actsOf ++ [.runCpu FrameTime.frameCycles], ?_⟩
  have hbody : console.frameBody ++ [.close] = _ := console.frameActs_eq
  rw [hrendering, Line.acts, hevents, List.flatMap_append] at hbody
  refine List.append_cancel_right (hbody.trans ?_)
  simp only [List.flatMap_cons, Line.actsOf, Line.number, List.append_assoc, List.cons_append,
    List.nil_append]

/-- Only the line before the picture returns to the first row, if it renders. -/
theorem of_reloadRow_mem {console : Console ℚ C A D} {line : Line} {dot : Nat}
    (h : .perform line ⟨dot, .reloadRow⟩ ∈ console.frameActs) :
    line = .preRender ∧ (dot = 280 ∨ dot = 304) ∧
      console.preRenderHead.bus.ppu.rendering = true := by
  have hacts {line' : Line} {rendering : Bool}
      (h : .perform line ⟨dot, .reloadRow⟩ ∈ line'.acts (T := ℚ) rendering) :
      line = line' ∧ ⟨dot, .reloadRow⟩ ∈ line'.events rendering := by
    simp only [Line.acts, Line.actsOf, List.mem_flatMap, List.mem_cons, reduceCtorEq, false_or,
      FrameAct.perform.injEq, List.not_mem_nil, or_false] at h
    obtain ⟨event, hevent, rfl, rfl⟩ := h
    exact ⟨rfl, hevent⟩
  rw [frameActs_eq, List.mem_append, List.mem_append] at h
  obtain h | h | h := h
  · obtain ⟨stage, hstage, rendering, hmem⟩ := mem_schedule h
    cases stage with
    | line line' =>
      obtain ⟨rfl, hevent⟩ := hacts hmem
      obtain ⟨rfl, -, -⟩ := Line.of_reloadRow_mem hevent
      simp [earlyStages, pictureStages, screenStages] at hstage
    | acts acts =>
      have hframe : .acts acts ∈ (frameStages : List (Stage ℚ)) := by
        rw [frameStages_eq]
        exact List.mem_append_left _ hstage
      obtain ⟨_, heq, hplain⟩ := Stage.plain_of_mem hframe
      cases heq
      exact absurd hmem (hplain _ _)
  · obtain ⟨rfl, hevent⟩ := hacts h
    obtain ⟨-, hrendering, hdot⟩ := Line.of_reloadRow_mem hevent
    exact ⟨rfl, hdot, hrendering⟩
  · simp at h

/-- At the first return to the first row, the processor is past the fetch of the last sprite. -/
theorem lt_cycle_reload (console : Console ℚ C A D) (done : List (FrameAct ℚ))
    (hopen : .close ∉ done) :
    FrameTime.ofDot 261 312 + console.cpu.cycleOffset <
      (console.performAll (done ++ [.runCpu (FrameTime.ofDot 261 312),
        .perform .preRender ⟨312, .fetchSprite 7⟩,
        .runCpu (FrameTime.ofDot 261 280)])).cpu.cycle := by
  obtain ⟨_, hdone⟩ := console.elapsed_performAll hopen
  rw [performAll_append, ← hdone.cycleOffset]
  generalize console.performAll done = reached
  have hpast := reached.cpu.lt_cycle_runTo reached.bus (FrameTime.ofDot 261 312)
  have hlast : ∃ more, Cpu.Elapsed more (reached.cpu.runTo reached.bus _).1 _ :=
    (reached.act (.runCpu (FrameTime.ofDot 261 312))).elapsed_performAll
      (show FrameAct.close ∉ [FrameAct.perform .preRender ⟨312, .fetchSprite 7⟩,
        .runCpu (FrameTime.ofDot 261 280)] by simp)
  obtain ⟨more, hlast⟩ := hlast
  rw [performAll_cons, hlast.cycle]
  push_cast
  linarith [(Nat.cast_nonneg more : (0 : ℚ) ≤ more)]

/-- A frame that returns to the first row too late is not in dot order. -/
theorem ReloadsLate.not_inDotOrder {console : Console ℚ C A D} (h : console.ReloadsLate) :
    ¬ console.InDotOrder := by
  intro horder
  obtain ⟨hrendering, cycle, start, hbegins, hlate, hearly⟩ := h
  obtain ⟨done, rest, hbody⟩ := frameBody_reload hrendering
  have hopen := console.close_notMem_frameBody
  rw [frameActs, begins_append] at hbegins
  have hbegins : console.Begins console.frameBody cycle start := by
    rcases hbegins with hbegins | hbegins
    · exact hbegins
    · exact (or_self_iff.mp hbegins).elim
  rw [hbody] at hopen
  rw [hbody, begins_append] at hbegins
  rcases hbegins with hbegins | hbegins
  · have hle := horder _ .preRender ⟨280, .reloadRow⟩ ?_ cycle start hbegins
    · have hstart : (cycle : ℚ) ≤ start := Nat.cast_le.mpr hbegins.cycle_le_start
      exact absurd (hstart.trans hle) (not_le.mpr hlate)
    · rw [frameActs, hbody]
      exact ⟨rest ++ [.close], by simp⟩
  · have hle := hbegins.cycle_le fun hmem => hopen (List.mem_append_right _ hmem)
    have hpast := console.lt_cycle_reload done fun hmem =>
      hopen (List.mem_append_left _ (List.mem_append_left _ hmem))
    exact absurd (hpast.trans_le (Nat.cast_le.mpr hle)) (not_lt.mpr hearly)

/-- Before a step, no round begins after its dot, unless the step is a late return to the first
row. -/
theorem begins_le_dot {console : Console ℚ C A D} (h : HalfCycle console.cpu.cycleOffset)
    (hnot : ¬ console.ReloadsLate) {done : List (FrameAct ℚ)} {line : Line} {event : Event}
    (hdone : done ++ [.perform line event] <+: console.frameActs) {cycle start : Nat}
    (hbegins : console.Begins done cycle start) :
    (cycle : ℚ) ≤ FrameTime.ofDot line.number event.dot + console.cpu.cycleOffset := by
  have hreach := begins_le_reach h hdone hbegins
  obtain ⟨dot, step⟩ := event
  unfold Event.reach at hreach
  split at hreach
  · next hstep =>
    cases hstep
    have hmem : .perform line ⟨dot, .reloadRow⟩ ∈ console.frameActs :=
      hdone.subset (List.mem_concat_self ..)
    obtain ⟨rfl, hdot, hrendering⟩ := of_reloadRow_mem hmem
    have hframe : console.Begins console.frameActs cycle start := by
      obtain ⟨rest, hrest⟩ := hdone
      rw [← hrest, List.append_assoc, begins_append]
      exact .inl hbegins
    have hearly : (cycle : ℚ) ≤ FrameTime.ofDot 261 280 + console.cpu.cycleOffset :=
      not_lt.mp fun hlate => hnot ⟨hrendering, cycle, start, hframe, hlate, hreach⟩
    have hdots : (FrameTime.ofDot 261 280 : ℚ) ≤ FrameTime.ofDot Line.preRender.number dot :=
      FrameTime.ofDot_le_ofDot (by simp only [Line.number]; omega)
    exact hearly.trans (by linarith)
  · exact hreach

theorem inDotOrder_iff_of_halfCycle {console : Console ℚ C A D}
    (h : HalfCycle console.cpu.cycleOffset) :
    console.InDotOrder ↔ ¬ console.ReloadsLate ∧ ¬ console.InterruptedAtDot := by
  constructor
  · intro horder
    refine ⟨fun hlate => hlate.not_inDotOrder horder, ?_⟩
    rintro ⟨done, line, event, hdone, cycle, start, hbegins, -, hafter⟩
    exact absurd (horder done line event hdone cycle start hbegins) (not_le.mpr hafter)
  · rintro ⟨hreload, hinterrupt⟩ done line event hdone cycle start hbegins
    have hcycle := begins_le_dot h hreload hdone hbegins
    by_contra hafter
    exact hinterrupt ⟨done, line, event, hdone, cycle, start, hbegins, hcycle, not_le.mp hafter⟩

/-! ## Consoles in front of a host -/

theorem halfCycle_runUnpainted {console : Console ℚ C A D}
    (h : HalfCycle console.cpu.cycleOffset) : HalfCycle console.runUnpainted.cpu.cycleOffset := by
  obtain ⟨_, he⟩ := console.elapsed_performAll console.close_notMem_frameBody
  have hoffset : console.runUnpainted.cpu.cycleOffset =
      Int.fract (console.cpu.cycleOffset + FrameTime.frameCycles) := by
    rw [runUnpainted_eq, frameActs, performAll_append, ← he.cycleOffset]
    rfl
  rw [hoffset, FrameTime.frameCycles_exact]
  rcases h with h | h <;> rw [h]
  · right
    rw [Int.fract_eq_iff]
    exact ⟨by norm_num, by norm_num, 29780, by norm_num⟩
  · left
    rw [Int.fract_eq_iff]
    exact ⟨by norm_num, by norm_num, 29781, by norm_num⟩

/-- The frames of a reachable console begin on a cycle or half a cycle after one. -/
theorem halfCycle_of_reachable {console : Console ℚ C A D} (h : console.Reachable) :
    HalfCycle console.cpu.cycleOffset := by
  have hzero : HalfCycle (Time.zero : ℚ) := .inl Nat.cast_zero
  induction h with
  | new => exact hzero
  | @answer _ _ console sink call _ ih =>
    have hrepeat (n : Nat) (c : Console ℚ C A D) (hc : HalfCycle c.cpu.cycleOffset) :
        HalfCycle (Nat.repeat runUnpainted n c).cpu.cycleOffset := by
      induction n with
      | zero => exact hc
      | succ n ihn => exact halfCycle_runUnpainted ihn
    cases call with
    | frame call =>
      show HalfCycle (console.runCall sink call).1.cpu.cycleOffset
      rw [runCall_fst]
      exact halfCycle_runUnpainted ih
    | tick now =>
      show HalfCycle (console.tick now sink).2.1.cpu.cycleOffset
      unfold tick
      split
      · exact ih
      · dsimp only
        split
        · exact ih
        · exact ih
        · exact ih
        · exact halfCycle_runUnpainted (hrepeat _ _ ih)
    | togglePause =>
      show HalfCycle console.togglePause.cpu.cycleOffset
      unfold togglePause
      split <;> exact ih
    | powerOn => exact hzero
    | insertCartridge => exact hzero
    | _ => exact ih

end Console

end Famicom
