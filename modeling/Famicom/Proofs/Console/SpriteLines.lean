import Famicom.Proofs.Console.Repaint
import Famicom.Proofs.Console.Scheduling
import Famicom.Proofs.Ppu.Pipeline

/-!
# Lines without sprites

The sprite line is never cleared for its own sake: fetching the first sprite of the next line starts
a new one, and a line that is not rendered removes it at its end. That is enough for no sprite to
show where none has been looked for.

* `Ppu.Spriteless`: the sprite line is empty, and the first sprite has not met the background.
* `Ppu.Spriteless.run`: what the steps of the unit do to that.
* `Console.spriteless_runUnpainted`: a frame leaves no sprites behind, whatever happens during it.
* `Console.no_sprites_leak`: so none show on the first line, or on a line after a dark one.
-/

namespace Famicom

/-! ## Steps of the unit -/

/-- The sprite line is empty, and the first sprite has not met the background. -/
structure Ppu.Spriteless (ppu : Ppu) : Prop where
  spriteLine : ppu.spriteLine = .empty
  spriteZeroHit : ppu.status.spriteZeroHit = false

namespace Ppu

/-- The word that the unit draws at a column of a line where it has no sprite. -/
def bareWordAt (ppu : Ppu) (x : Fin 256) : UInt16 :=
  pixelWord (ppu.paletteColor (ppu.backgroundAt (tileOf x) (dotOf x))) ppu.emphasis

theorem spriteAt_of_empty {ppu : Ppu} (h : ppu.spriteLine = .empty) (x : Fin 256) :
    ppu.spriteAt x = none := by
  have hnone : SpriteLine.empty.get x = none := Vector.getElem_replicate x.isLt
  unfold spriteAt
  rw [h, hnone, ite_self]

theorem wordAt_of_empty {ppu : Ppu} (h : ppu.spriteLine = .empty) (x : Fin 256) :
    ppu.wordAt x = ppu.bareWordAt x := by
  unfold wordAt colorAt
  rw [spriteAt_of_empty h]
  rfl

/-- Nothing that a program can do brings a sprite to the line. -/
theorem Spriteless.of_samePipeline {ppu later : Ppu} (h : ppu.Spriteless)
    (hsame : ppu.SamePipeline later) : later.Spriteless :=
  ⟨hsame.spriteLine.trans h.spriteLine, hsame.spriteZeroHit.trans h.spriteZeroHit⟩

/-- Where there is no sprite, none meets the background. -/
theorem hitAt_of_empty {ppu : Ppu} (h : ppu.spriteLine = .empty) (tile : Fin 32) (i : Fin 8) :
    ppu.hitAt tile i = false := by
  unfold hitAt
  rw [spriteAt_of_empty h]

theorem SamePipeline.count_eq {ppu later : Ppu} (h : ppu.SamePipeline later) :
    later.search.count = ppu.search.count := congrArg (·.count) h.search

/-- Without sprites to fetch, the first slot empties the sprite line, and no other matters. -/
theorem fetchSprite_of_none {C : Type} [Cartridge C] {ppu : Ppu} (h : ppu.search.count = 0)
    (cartridge : C) (slot : Nat) :
    (ppu.fetchSprite cartridge slot).1 = if slot = 0 then ppu.clearSpriteLine else ppu := by
  have hcount : (if slot = 0 then ppu.clearSpriteLine else ppu).search.count = 0 := by
    split <;> exact h
  unfold fetchSprite
  generalize (if slot = 0 then ppu.clearSpriteLine else ppu) = fetching at hcount ⊢
  have hslot : ¬ slot < fetching.search.count := by
    rw [hcount]
    exact Nat.not_lt_zero slot
  dsimp only
  rw [if_neg hslot]

end Ppu

namespace PpuStep

variable {C : Type} [Cartridge C]

/-- Only the unit's own search finds sprites. -/
theorem run_count {step : PpuStep} (hstep : ∀ line, step ≠ searchSprites line) {ppu : Ppu}
    (h : ppu.search.count = 0) (cartridge : C) : (step.run ppu cartridge).1.search.count = 0 := by
  cases step with
  | searchSprites line => exact absurd rfl (hstep line)
  | clearSecondaryOam => rfl
  | fetchSprite slot =>
    show (ppu.fetchSprite cartridge slot).1.search.count = 0
    rw [Ppu.fetchSprite_of_none h]
    split <;> exact h
  | _ => exact h

/-- No step brings a sprite to the line but one that fetches a sprite that was found. -/
theorem run_spriteLine {step : PpuStep} {ppu : Ppu} (h : ppu.spriteLine = .empty)
    (hstep : ppu.search.count = 0 ∨ ∀ slot, step ≠ fetchSprite slot) (cartridge : C) :
    (step.run ppu cartridge).1.spriteLine = .empty := by
  cases step with
  | fetchSprite slot =>
    have hcount := hstep.resolve_right fun hne => hne slot rfl
    show (ppu.fetchSprite cartridge slot).1.spriteLine = .empty
    rw [Ppu.fetchSprite_of_none hcount]
    split
    · rfl
    · exact h
  | clearSpriteLine => rfl
  | _ => exact h

/-- No step reports that the first sprite meets the background but one that draws a sprite. -/
theorem run_spriteZeroHit {step : PpuStep} {ppu : Ppu} (h : ppu.status.spriteZeroHit = false)
    (hstep : ppu.spriteLine = .empty ∨ ∀ line tile, step ≠ drawTile line tile) (cartridge : C) :
    (step.run ppu cartridge).1.status.spriteZeroHit = false := by
  cases step with
  | drawTile line tile =>
    have hempty := hstep.resolve_right fun hne => hne line tile rfl
    show (ppu.status.spriteZeroHit || (List.finRange 8).any (ppu.hitAt tile)) = false
    rw [h, Bool.false_or, List.any_eq_false]
    intro i _
    rw [Ppu.hitAt_of_empty hempty]
    exact Bool.false_ne_true
  | fetchSprite slot =>
    exact (congrArg (·.status.spriteZeroHit) (ppu.fetchSprite_changes cartridge slot)).trans h
  | _ => exact h

end PpuStep

/-! ## Events of a line -/

namespace Line

/-- The line before the picture looks for no sprite. -/
theorem step_ne_searchSprites {rendering : Bool} {event : Event}
    (h : event ∈ preRender.events rendering) (line : Fin 240) :
    event.step ≠ .searchSprites line := by
  cases rendering with
  | false => grind [events, tileEvents, tileSteps]
  | true => grind [events, tileEvents, tileSteps, closingEvents]

/-- Over the tile columns, no sprite is fetched. -/
theorem step_ne_fetchSprite {line : Line} {rendering : Bool} {event : Event}
    (h : event ∈ line.tileEvents rendering) (slot : Fin 8) : event.step ≠ .fetchSprite slot := by
  cases line <;> grind [tileEvents, tileSteps]

/-- After the tile columns, nothing is drawn. -/
theorem step_ne_drawTile_of_closing {line : Line} {event : Event}
    (h : event ∈ line.closingEvents) (y : Fin 240) (tile : Fin 32) :
    event.step ≠ .drawTile y tile := by
  cases line <;> grind [closingEvents]

/-- A line draws on itself alone. -/
theorem eq_of_drawTile {y y' : Fin 240} {rendering : Bool} {event : Event} {tile : Fin 32}
    (h : event ∈ (visible y).events rendering) (hstep : event.step = .drawTile y' tile) :
    y' = y := by
  cases rendering with
  | false => grind [events, tileEvents, tileSteps]
  | true => grind [events, tileEvents, tileSteps, closingEvents]

end Line

/-! ## Acts of a frame -/

namespace Console

variable {T C A D S : Type} [Time T] [Cartridge C] [Apu A] [Controller D] [VideoSink S]
  {console : Console T C A D}

/-- The processor does not change what only the unit changes. -/
theorem pipeline_runCpu (console : Console T C A D) (limit : T) :
    console.bus.ppu.SamePipeline (console.runCpu limit).bus.ppu :=
  (Bus.keeps_pipeline console.bus.ppu).runTo console.cpu (.refl console.bus.ppu) fun _ _ => trivial

/-- A property of the unit that a program cannot change and that some events keep is kept by their
acts, or by some of them. -/
theorem performAll_events {P : Ppu → Prop}
    (hp : ∀ {ppu later : Ppu}, P ppu → ppu.SamePipeline later → P later) {line : Line}
    {events : List Event} {acts : List (FrameAct T)} (hacts : acts ⊆ events.flatMap line.actsOf)
    (hstep : ∀ event ∈ events, ∀ ppu (cartridge : C), P ppu → P (event.step.run ppu cartridge).1)
    (h : P console.bus.ppu) : P (console.performAll acts).bus.ppu := by
  refine performAll_induction (P := fun c => P c.bus.ppu) (fun a ha c hc => ?_) h
  obtain ⟨event, hevent, hact⟩ := List.mem_flatMap.mp (hacts ha)
  simp only [Line.actsOf, List.mem_cons, List.not_mem_nil, or_false] at hact
  rcases hact with rfl | rfl
  · exact hp hc (c.pipeline_runCpu _)
  · exact hstep event hevent _ _ hc

/-- Events that draw nothing do not let the first sprite meet the background. -/
theorem unmet_events {line : Line} {events : List Event} {acts : List (FrameAct T)}
    (hacts : acts ⊆ events.flatMap line.actsOf)
    (hdraw : ∀ event ∈ events, ∀ y tile, event.step ≠ .drawTile y tile)
    (h : console.bus.ppu.status.spriteZeroHit = false) :
    (console.performAll acts).bus.ppu.status.spriteZeroHit = false :=
  performAll_events (P := fun ppu => ppu.status.spriteZeroHit = false)
    (fun hppu hsame => hsame.spriteZeroHit.trans hppu) hacts
    (fun event hevent _ cartridge hppu =>
      PpuStep.run_spriteZeroHit hppu (.inr (hdraw event hevent)) cartridge)
    h

/-! ## The end of a line -/

/-- A line on which the unit does not render ends without sprites. -/
theorem spriteLine_of_dark (console : Console T C A D) (line : Line) :
    (console.performAll (line.acts false)).bus.ppu.spriteLine = .empty := by
  have hevents : line.events false =
      (⟨0, .clearSecondaryOam⟩ :: line.tileEvents false) ++ [⟨248, .clearSpriteLine⟩] := rfl
  rw [Line.acts, hevents, List.flatMap_append, performAll_append]
  rfl

/-- Before the picture, no sprite is looked for, so none is left at the end of that line: the first
slot starts a new sprite line, and up to then and after it no sprite is found. -/
theorem spriteLine_preRender (console : Console T C A D) (rendering : Bool) :
    (console.performAll (Line.preRender.acts rendering)).bus.ppu.spriteLine = .empty := by
  cases rendering with
  | false => exact console.spriteLine_of_dark .preRender
  | true =>
    have hfetch : ⟨256, .fetchSprite 0⟩ ∈ Line.preRender.closingEvents := by
      simp [Line.closingEvents]
    obtain ⟨before, after, hclosing⟩ := List.append_of_mem hfetch
    have hevents : Line.preRender.events true =
        ⟨0, .clearSecondaryOam⟩ :: (Line.preRender.tileEvents true ++ before) ++
          ⟨256, .fetchSprite 0⟩ :: after := by
      rw [Line.events, if_pos rfl, hclosing, List.cons_append, List.cons_append, List.append_assoc]
    have hsearch {event : Event} (hevent : event ∈ Line.preRender.events true) :=
      Line.step_ne_searchSprites hevent
    rw [hevents] at hsearch
    rw [Line.acts, hevents, List.flatMap_append, List.flatMap_cons, List.flatMap_cons]
    simp only [performAll_append]
    let start := console.performAll (Line.preRender.actsOf ⟨0, .clearSecondaryOam⟩)
    let ready := start.performAll
      ((Line.preRender.tileEvents true ++ before).flatMap Line.preRender.actsOf)
    let caught := ready.runCpu (FrameTime.ofDot Line.preRender.number 256)
    let fetched := caught.act (.perform .preRender ⟨256, .fetchSprite 0⟩)
    have hready : ready.bus.ppu.search.count = 0 :=
      performAll_events (P := fun ppu => ppu.search.count = 0)
        (fun hppu hsame => hsame.count_eq.trans hppu) (List.Subset.refl _)
        (fun event hevent ppu cartridge hppu =>
          PpuStep.run_count (hsearch (List.mem_append_left _ (.tail _ hevent))) hppu cartridge)
        rfl
    have hcaught : caught.bus.ppu.search.count = 0 :=
      (ready.pipeline_runCpu _).count_eq.trans hready
    have hfetched : fetched.bus.ppu.search.count = 0 ∧ fetched.bus.ppu.spriteLine = .empty := by
      have hslot : fetched.bus.ppu = caught.bus.ppu.clearSpriteLine :=
        Ppu.fetchSprite_of_none hcaught _ 0
      rw [hslot]
      exact ⟨hcaught, rfl⟩
    have hlater := performAll_events
      (P := fun ppu => ppu.search.count = 0 ∧ ppu.spriteLine = .empty)
      (fun hppu hsame => ⟨hsame.count_eq.trans hppu.1, hsame.spriteLine.trans hppu.2⟩)
      (List.Subset.refl (after.flatMap Line.preRender.actsOf))
      (fun event hevent _ cartridge hppu =>
        ⟨PpuStep.run_count (hsearch (List.mem_append_right _ (.tail _ hevent))) hppu.1 cartridge,
          PpuStep.run_spriteLine hppu.2 (.inl hppu.1) cartridge⟩)
      hfetched
    exact hlater.2

theorem spriteless_preRender (h : console.bus.ppu.status.spriteZeroHit = false)
    (rendering : Bool) :
    (console.performAll (Line.preRender.acts rendering)).bus.ppu.Spriteless where
  spriteLine := console.spriteLine_preRender rendering
  spriteZeroHit := unmet_events (List.Subset.refl _) (fun _ => Line.step_ne_drawTile) h

/-- A frame leaves no sprites behind, whatever has happened before. -/
theorem spriteless_runUnpainted (console : Console T C A D) :
    console.runUnpainted.bus.ppu.Spriteless := by
  have hhit : console.preRenderHead.bus.ppu.status.spriteZeroHit = false := by
    rw [status_preRenderHead]
    rfl
  have hline := spriteless_preRender hhit console.preRenderHead.bus.ppu.rendering
  rw [runUnpainted_preRenderHead, performAll_append]
  generalize console.preRenderHead.performAll _ = later at hline
  exact hline.of_samePipeline (later.pipeline_runCpu _)

/-! ## Runs -/

theorem Played.spriteless {start : Console T C A D} (h : start.Played console)
    (hstart : start.bus.ppu.Spriteless) : console.bus.ppu.Spriteless :=
  h.keeps (P := fun console => console.bus.ppu.Spriteless)
    (fun console _ => console.spriteless_runUnpainted) (fun _ _ _ hconsole => hconsole) hstart

/-- Between frames, there are no sprites on the line. -/
theorem Reachable.spriteless (h : console.Reachable) : console.bus.ppu.Spriteless :=
  h.ppu_induction (P := Ppu.Spriteless) (fun _ => ⟨rfl, rfl⟩)
    (fun _ hppu => ⟨hppu.spriteLine, hppu.spriteZeroHit⟩)
    (fun _ _ hppu => ⟨hppu.spriteLine, hppu.spriteZeroHit⟩)
    (fun console _ => console.spriteless_runUnpainted)

/-! ## The lines of the picture -/

/-- The console at the head of a line, given the one at the head of the frame. -/
def lineHead (console : Console T C A D) (y : Nat) : Console T C A D :=
  ((List.finRange 240).take y).foldl runVisible console

/-- The acts of the line at whose head a console is. -/
def lineActs (console : Console T C A D) (y : Fin 240) : List (FrameAct T) :=
  .enter (.visible y) :: (Line.visible y).acts console.bus.ppu.rendering

theorem runVisible_eq (console : Console T C A D) (y : Fin 240) :
    console.runVisible y = console.performAll (console.lineActs y) := by
  rw [runVisible, runLine_eq]
  rfl

theorem lineHead_succ (console : Console T C A D) (y : Fin 240) :
    console.lineHead (y + 1) = (console.lineHead y).runVisible y := by
  have hlength : y.val < (List.finRange 240).length := by
    rw [List.length_finRange]
    exact y.isLt
  unfold lineHead
  rw [← List.take_concat_get' _ _ hlength, List.foldl_append]
  simp

/-- The acts of the first line come first, and the other lines do not draw on it. -/
theorem exists_schedule_screenStages (console : Console T C A D) :
    ∃ later, console.schedule screenStages = console.lineActs 0 ++ later ∧
      ∀ a ∈ later, ∀ x, a.draws x 0 = false := by
  let others : List (Stage T) := (List.finRange 239).flatMap fun y =>
    [.acts [.enter (.visible y.succ)], .line (.visible y.succ)]
  have hstages : (screenStages : List (Stage T)) =
      [.acts [.enter (.visible 0)], .line (.visible 0)] ++ others := by
    rw [screenStages, List.finRange_succ, List.flatMap_cons, List.flatMap_map]
  have hfirst : console.schedule [.acts [.enter (.visible 0)], .line (.visible 0)] =
      console.lineActs 0 := by
    simp only [schedule, Stage.unfold, List.append_nil]
    rfl
  refine ⟨_, by rw [hstages, schedule_append, hfirst], fun a ha x => ?_⟩
  obtain ⟨stage, hstage, rendering, hact⟩ := mem_schedule ha
  obtain ⟨y, -, hline⟩ := List.mem_flatMap.mp hstage
  simp only [List.mem_cons, List.not_mem_nil, or_false] at hline
  rcases hline with rfl | rfl
  · rw [List.mem_singleton.mp hact]
    rfl
  · refine FrameAct.draws_eq_false hact fun event hevent hstep => ?_
    exact Fin.succ_ne_zero y (Line.eq_of_drawTile hevent hstep).symm

/-- Up to the end of its tile columns, a line that begins without sprites has none. -/
theorem spriteless_tiles (h : console.bus.ppu.Spriteless) {y : Fin 240} {rendering : Bool}
    {acts : List (FrameAct T)}
    (hacts : acts ⊆ (⟨0, .clearSecondaryOam⟩ :: (Line.visible y).tileEvents rendering).flatMap
      (Line.visible y).actsOf) :
    (console.performAll acts).bus.ppu.Spriteless := by
  refine performAll_events (P := Ppu.Spriteless) Ppu.Spriteless.of_samePipeline hacts
    (fun event hevent ppu cartridge hppu => ?_) h
  have hfetch (slot : Fin 8) : event.step ≠ .fetchSprite slot := by
    rcases List.mem_cons.mp hevent with rfl | htiles
    · nofun
    · exact Line.step_ne_fetchSprite htiles slot
  exact ⟨PpuStep.run_spriteLine hppu.spriteLine (.inr hfetch) cartridge,
    PpuStep.run_spriteZeroHit hppu.spriteZeroHit (.inl hppu.spriteLine) cartridge⟩

/-- A line that begins without sprites: while its acts draw, it has none, and at no time has the
first sprite met the background. -/
theorem spriteless_line (h : console.bus.ppu.Spriteless) (y : Fin 240) {done : List (FrameAct T)}
    (hdone : done <+: console.lineActs y) :
    (console.performAll done).bus.ppu.status.spriteZeroHit = false ∧
      ∀ a x, done ++ [a] <+: console.lineActs y → a.draws x y = true →
        (console.performAll done).bus.ppu.spriteLine = .empty := by
  let tiles : List Event :=
    ⟨0, .clearSecondaryOam⟩ :: (Line.visible y).tileEvents console.bus.ppu.rendering
  let closing : List Event :=
    if console.bus.ppu.rendering then (Line.visible y).closingEvents
    else [⟨248, .clearSpriteLine⟩]
  have hacts : console.lineActs y = .enter (.visible y) :: (tiles.flatMap (Line.visible y).actsOf ++
      closing.flatMap (Line.visible y).actsOf) :=
    congrArg (List.cons _) List.flatMap_append
  have hdraw (event : Event) (hevent : event ∈ closing) (line : Fin 240) (tile : Fin 32) :
      event.step ≠ .drawTile line tile := by
    simp only [closing] at hevent
    split at hevent
    · exact Line.step_ne_drawTile_of_closing hevent line tile
    · rw [List.mem_singleton.mp hevent]
      nofun
  rw [hacts] at hdone ⊢
  rcases List.prefix_cons_iff.mp hdone with rfl | ⟨line, rfl, hline⟩
  · exact ⟨h.spriteZeroHit, fun _ _ _ _ => h.spriteLine⟩
  have hentered : (console.act (.enter (.visible y))).bus.ppu.Spriteless := h
  rw [performAll_cons]
  rcases List.prefix_or_prefix_of_prefix hline (List.prefix_append _ _) with htiles | ⟨late, rfl⟩
  · have hspriteless := spriteless_tiles hentered htiles.subset
    exact ⟨hspriteless.spriteZeroHit, fun _ _ _ _ => hspriteless.spriteLine⟩
  · have hlate := (List.prefix_append_right_inj _).mp hline
    have htiles := spriteless_tiles hentered (List.Subset.refl (tiles.flatMap _))
    rw [performAll_append]
    refine ⟨?_, fun a x hnext hdraws => ?_⟩
    · exact unmet_events hlate.subset hdraw htiles.spriteZeroHit
    · rw [List.cons_append, List.prefix_cons_inj, List.append_assoc,
        List.prefix_append_right_inj] at hnext
      have hmem : a ∈ closing.flatMap (Line.visible y).actsOf := hnext.subset (by simp)
      have hnot := FrameAct.draws_eq_false hmem fun event hevent => hdraw event hevent y (tileOf x)
      rw [hnot] at hdraws
      cases hdraws

/-! ## Frames -/

/-- What the frame that a console begins with shows of sprites where it must show none. -/
structure NoSpritesLeak (head : Console T C A D) : Prop where
  /-- The first line begins without sprites. -/
  empty : head.bus.ppu.spriteLine = .empty
  /-- So each of its pixels shows what the unit draws where it has no sprite. -/
  bare : ∀ x, ∃ done a, done ++ [a] <+: head.schedule screenStages ∧ a.draws x 0 = true ∧
    head.runPicture.bus.ppu.frame.word x 0 = (head.performAll done).bus.ppu.bareWordAt x
  /-- At no time during the line has the first sprite met the background. -/
  unmet : ∀ done, done <+: head.lineActs 0 →
    (head.performAll done).bus.ppu.status.spriteZeroHit = false
  /-- If the unit does not render at the head of a line, the next line begins without sprites. -/
  dark : ∀ y : Fin 240, (head.lineHead y).bus.ppu.rendering = false →
    (head.lineHead (y + 1)).bus.ppu.spriteLine = .empty

theorem noSpritesLeak (h : console.bus.ppu.Spriteless) : console.NoSpritesLeak where
  empty := h.spriteLine
  bare x := by
    obtain ⟨done, a, hdrawn, hdraws, hword⟩ := console.word_runPicture x 0
    obtain ⟨later, hschedule, hlater⟩ := console.exists_schedule_screenStages
    refine ⟨done, a, hdrawn, hdraws, ?_⟩
    -- The act is on the first line, since the others do not draw there.
    have hline : done ++ [a] <+: console.lineActs 0 := by
      rw [hschedule] at hdrawn
      rcases List.prefix_or_prefix_of_prefix hdrawn (List.prefix_append _ _) with hfirst | hfirst
      · exact hfirst
      rcases List.prefix_concat_iff.mp hfirst with heq | ⟨late, rfl⟩
      · exact heq ▸ List.prefix_refl _
      · rw [List.append_assoc, List.prefix_append_right_inj] at hdrawn
        rw [hlater a (hdrawn.subset (by simp)) x] at hdraws
        cases hdraws
    have hempty := (spriteless_line h 0 ((List.prefix_append _ _).trans hline)).2 a x hline hdraws
    rw [← Ppu.wordAt_of_empty hempty]
    exact hword console.bus.ppu.frame
  unmet done hdone := (spriteless_line h 0 hdone).1
  dark y hdark := by
    rw [lineHead_succ, runVisible_eq, lineActs, hdark]
    exact spriteLine_of_dark _ _

/-- No sprite shows where it must not, in any frame of any run. -/
theorem no_sprites_leak (h : console.Reachable) (call : HostCall T C A D) :
    ∀ head ∈ console.frameHeads call, head.NoSpritesLeak := by
  intro head hhead
  exact noSpritesLeak ((Played.of_mem_frameHeads hhead).spriteless h.spriteless)

/-- A console that has run a frame and been reset, and now runs another. -/
theorem no_sprites_leak_slotless :
    let console := (slotless.answerAll CaptureSink.empty [.tick 0, .reset]).1
    console.Reachable ∧ console.frameHeads (.frame .painted) = [console] ∧
      ∀ head ∈ console.frameHeads (.frame .painted), head.NoSpritesLeak := by
  intro console
  have hreachable : console.Reachable := (Reachable.new _ _ _ _ _).answerAll _ _
  exact ⟨hreachable, rfl, no_sprites_leak hreachable (.frame .painted)⟩

end Console

end Famicom
