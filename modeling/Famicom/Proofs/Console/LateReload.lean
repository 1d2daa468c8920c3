import Famicom.Proofs.Console.DotOrder
import Famicom.Proofs.Console.RenderingGate

/-!
# The late return to the first row

Between the first return to the first row and the fetch of the last sprite lie more than ten cycles,
longer than any instruction takes. So unless an interrupt or a transfer to sprite memory happens to
bridge the gap, a frame that renders the line before the picture is out of dot order.

* `Brisk.reloadsLate`: a program without long rounds finds the return late in every such frame.
* `RunsToggling.brisk`: a program that has no long rounds.
* `inDotOrder_iff`: when the frames of the consoles in front of a host are in dot order.
-/

namespace Famicom

/-- An act that runs the processor no further than `most`, if at all. -/
def FrameAct.Within (most : ℚ) : FrameAct ℚ → Prop
  | .runCpu limit => limit ≤ most
  | .close => False
  | _ => True

theorem FrameAct.Until.within {a : FrameAct ℚ} {most most' : ℚ} (h : a.Until most)
    (hle : most ≤ most') : a.Within most' := by
  cases a with
  | runCpu limit => exact h.trans hle
  | close => exact h
  | _ => trivial

section

variable {C A D : Type} [Cartridge C] [Apu A] [Controller D]

/-- A property of processor and bus that a frame keeps, and under which no round takes longer than
ten cycles, the processor is not halted and the interrupt of vertical blanking is not answered. -/
structure Brisk (P : Cpu ℚ → Bus C A D → Prop) : Prop where
  running : ∀ cpu bus, P cpu bus → cpu.jammed = false
  advance : ∀ cpu bus, P cpu bus →
    P (cpu.advance bus).1 (cpu.advance bus).2 ∧ (cpu.advance bus).1.cycle ≤ cpu.cycle + 10
  answerNmi : ∀ cpu bus, P cpu bus →
    (cpu.answerNmi bus).1 = cpu ∧ P cpu (cpu.answerNmi bus).2
  perform : ∀ cpu bus (step : PpuStep), P cpu bus →
    P cpu { bus with
      ppu := (step.run bus.ppu bus.cartridge).1
      cartridge := (step.run bus.ppu bus.cartridge).2 }
  beginVblank : ∀ cpu bus, P cpu bus → P cpu { bus with ppu := bus.ppu.beginVblank }
  endVblank : ∀ cpu bus, P cpu bus → P cpu { bus with ppu := bus.ppu.endVblank }

/-- The property holds, the frame began at `offset`, and no round that began after `most` cycles has
been made. -/
structure Console.Prompt (P : Cpu ℚ → Bus C A D → Prop) (offset most : ℚ)
    (console : Console ℚ C A D) : Prop where
  keeps : P console.cpu console.bus
  cycleOffset : console.cpu.cycleOffset = offset
  cycle_le : (console.cpu.cycle : ℚ) ≤ most + offset + 10

namespace Brisk

variable {P : Cpu ℚ → Bus C A D → Prop} {offset most : ℚ} {console : Console ℚ C A D}

/-- A run overshoots by at most ten cycles. -/
theorem runCpu (h : Brisk P) (hc : console.Prompt P offset most) {limit : ℚ} (hle : limit ≤ most) :
    (console.runCpu limit).Prompt P offset most := by
  let Kept (cpu : Cpu ℚ) (bus : Bus C A D) : Prop :=
    P cpu bus ∧ cpu.cycleOffset = offset ∧ (cpu.cycle : ℚ) ≤ most + offset + 10
  have hround (cpu : Cpu ℚ) (bus : Bus C A D) (hkept : Kept cpu bus) (hdue : cpu.Due limit) :
      Kept (cpu.advance bus).1 (cpu.advance bus).2 := by
    obtain ⟨hp, hoffset, -⟩ := hkept
    obtain ⟨_, -, -, he⟩ := Cpu.elapsed_advance cpu bus
    rw [Cpu.due_iff, hoffset] at hdue
    have hcycle : ((cpu.advance bus).1.cycle : ℚ) ≤ (cpu.cycle : ℚ) + 10 := by
      exact_mod_cast (h.advance cpu bus hp).2
    exact ⟨(h.advance cpu bus hp).1, he.cycleOffset.trans hoffset, by linarith⟩
  have hstart : Kept console.cpu console.bus := ⟨hc.keeps, hc.cycleOffset, hc.cycle_le⟩
  obtain ⟨hp, hoffset, hcycle⟩ := Cpu.runTo_induction (P := Kept) hround hstart
  exact ⟨hp, hoffset, hcycle⟩

theorem act (h : Brisk P) (hc : console.Prompt P offset most) {a : FrameAct ℚ}
    (ha : a.Within most) : (console.act a).Prompt P offset most := by
  cases a with
  | enter phase => exact ⟨hc.keeps, hc.cycleOffset, hc.cycle_le⟩
  | runCpu limit => exact h.runCpu hc ha
  | perform line event => exact ⟨h.perform _ _ _ hc.keeps, hc.cycleOffset, hc.cycle_le⟩
  | beginVblank => exact ⟨h.beginVblank _ _ hc.keeps, hc.cycleOffset, hc.cycle_le⟩
  | answerNmi =>
    obtain ⟨hcpu, hkeeps⟩ := h.answerNmi _ _ hc.keeps
    refine ⟨?_, ?_, ?_⟩
    · show P (console.cpu.answerNmi console.bus).1 _
      rw [hcpu]
      exact hkeeps
    · exact (congrArg Cpu.cycleOffset hcpu).trans hc.cycleOffset
    · show ((console.cpu.answerNmi console.bus).1.cycle : ℚ) ≤ _
      rw [hcpu]
      exact hc.cycle_le
  | endVblank => exact ⟨h.endVblank _ _ hc.keeps, hc.cycleOffset, hc.cycle_le⟩
  | close => exact ha.elim

theorem performAll (h : Brisk P) (hc : console.Prompt P offset most) {acts : List (FrameAct ℚ)}
    (hacts : ∀ a ∈ acts, a.Within most) : (console.performAll acts).Prompt P offset most :=
  Console.performAll_induction (P := Console.Prompt P offset most)
    (fun a ha _ hc => h.act hc (hacts a ha)) hc

end Brisk

namespace Console

/-- No run before the line before the picture goes past its second dot. -/
theorem within_early {console : Console ℚ C A D} {a : FrameAct ℚ}
    (h : a ∈ console.schedule earlyStages) : a.Within (FrameTime.ofDot 261 280) := by
  have hvblank : (FrameTime.ofDot Line.vblank 1 : ℚ) ≤ FrameTime.ofDot 261 280 :=
    FrameTime.ofDot_le_ofDot (by decide)
  rw [earlyStages, schedule_append, List.mem_append] at h
  rcases h with h | h
  · exact (until_vblank h).within hvblank
  · simp only [schedule, Stage.unfold, List.mem_append, List.mem_cons, List.not_mem_nil,
      or_false] at h
    rcases h with rfl | rfl | rfl | rfl
    · trivial
    · trivial
    · exact FrameTime.ofDot_le_ofDot (by decide)
    · trivial

/-- The schedule of the line before the picture begins after its second dot. -/
theorem lt_cycle_preRenderHead (console : Console ℚ C A D) :
    FrameTime.ofDot 261 1 + console.preRenderHead.cpu.cycleOffset <
      console.preRenderHead.cpu.cycle := by
  rw [preRenderHead, earlyStages, schedule_append, performAll_append]
  generalize console.performAll (console.schedule pictureStages) = reached
  generalize hentered : { reached.act .answerNmi with phase := .preRender } = entered
  have hhead : reached.performAll (reached.schedule [.acts [.answerNmi], .acts
      [.enter .preRender, .runCpu (FrameTime.ofDot Line.preRender.number 1), .endVblank]]) =
      (entered.runCpu (FrameTime.ofDot 261 1)).act .endVblank := by
    rw [← hentered]
    rfl
  have hpast := entered.cpu.lt_cycle_runTo entered.bus (FrameTime.ofDot 261 1)
  obtain ⟨_, he⟩ := entered.cpu.elapsed_runTo entered.bus (FrameTime.ofDot 261 1)
  rw [← he.cycleOffset] at hpast
  rw [hhead]
  exact hpast

/-- As long as no interrupt is answered, the next round begins when a limit lets it. -/
theorem begins_of_limit {console : Console ℚ C A D} {acts : List (FrameAct ℚ)} {most limit : ℚ}
    (hrunning : console.cpu.jammed = false) (hacts : ∀ a ∈ acts, a.Until most)
    (hmem : .runCpu limit ∈ acts)
    (hle : (console.cpu.cycle : ℚ) ≤ limit + console.cpu.cycleOffset) :
    ∃ start, console.Begins acts console.cpu.cycle start := by
  induction acts generalizing console with
  | nil => cases hmem
  | cons a acts ih =>
    have hrest : ∀ b ∈ acts, b.Until most := fun b hb => hacts b (.tail _ hb)
    have hfirst := hacts a (List.mem_cons_self ..)
    have hnext := @ih (console.act a)
    cases a with
    | runCpu limit' =>
      by_cases hdue : console.cpu.Due limit'
      · exact ⟨_, .inl (Cpu.begins_self hdue hrunning console.bus)⟩
      · -- the run stops at once
        have hrun : console.cpu.runTo console.bus limit' = (console.cpu, console.bus) := by
          obtain ⟨n, hrun, hbefore, -⟩ := console.cpu.runTo_eq_rounds console.bus limit'
          cases n with
          | zero => exact hrun
          | succ n => exact absurd (hbefore 0 n.succ_pos) hdue
        have hact : console.act (.runCpu limit') = console := by
          show console.runCpu limit' = console
          rw [Console.runCpu, hrun]
        have hlater : .runCpu limit ∈ acts := by
          rcases List.mem_cons.mp hmem with heq | hmem
          · cases heq
            exact absurd ((Cpu.due_iff _ _).mpr hle) hdue
          · exact hmem
        rw [hact] at hnext
        obtain ⟨start, hbegins⟩ := hnext hrunning hrest hlater hle
        refine ⟨start, .inr ?_⟩
        rw [hact]
        exact hbegins
    | answerNmi => exact hfirst.elim
    | close => exact hfirst.elim
    | _ =>
      have hlater : .runCpu limit ∈ acts := (List.mem_cons.mp hmem).resolve_left nofun
      obtain ⟨start, hbegins⟩ := hnext hrunning hrest hlater hle
      exact ⟨start, .inr hbegins⟩

end Console

/-- A program without long rounds finds the return to the first row late in every frame that
renders its last line. -/
theorem Brisk.reloadsLate {P : Cpu ℚ → Bus C A D → Prop} (h : Brisk P) {console : Console ℚ C A D}
    (hp : P console.cpu console.bus)
    (hstart : (console.cpu.cycle : ℚ) ≤ FrameTime.ofDot 261 280)
    (hoffset : 0 ≤ console.cpu.cycleOffset)
    (hrendering : console.preRenderHead.bus.ppu.rendering = true) : console.ReloadsLate := by
  have hevents : Line.preRender.events true =
      (Line.preRender.events true).take 37 ++
        ⟨280, .fetchSprite 3⟩ :: (Line.preRender.events true).drop 38 := rfl
  have hlate : ⟨312, .fetchSprite 7⟩ ∈ (Line.preRender.events true).drop 38 := by decide
  have hearly : ∀ event ∈ (Line.preRender.events true).take 37, event.dot ≤ 280 := by decide
  generalize (Line.preRender.events true).take 37 = before at hevents hearly
  generalize (Line.preRender.events true).drop 38 = after at hevents hlate
  have hframe : console.frameActs =
      (console.schedule earlyStages ++ before.flatMap Line.preRender.actsOf ++
        [.runCpu (FrameTime.ofDot 261 280)]) ++
      ((.perform .preRender ⟨280, .fetchSprite 3⟩ :: after.flatMap Line.preRender.actsOf) ++
        [.runCpu FrameTime.frameCycles, .close]) := by
    rw [console.frameActs_eq, hrendering, Line.acts, hevents, List.flatMap_append]
    simp only [List.flatMap_cons, Line.actsOf, Line.number, List.append_assoc, List.cons_append,
      List.nil_append]
  have hprompt : (console.performAll (console.schedule earlyStages ++
      before.flatMap Line.preRender.actsOf)).Prompt P console.cpu.cycleOffset
        (FrameTime.ofDot 261 280) := by
    refine h.performAll ⟨hp, rfl, by linarith⟩ fun a ha => ?_
    rcases List.mem_append.mp ha with ha | ha
    · exact Console.within_early ha
    · obtain ⟨event, hevent, hact⟩ := List.mem_flatMap.mp ha
      have hdot := hearly event hevent
      rcases List.mem_pair.mp hact with rfl | rfl
      · exact FrameTime.ofDot_le_ofDot (by simp only [Line.number]; omega)
      · trivial
  generalize console.schedule earlyStages ++ before.flatMap Line.preRender.actsOf = done
    at hframe hprompt
  have hreached := h.act hprompt (a := .runCpu (FrameTime.ofDot 261 280)) (le_refl _)
  have hlower := (console.performAll done).cpu.lt_cycle_runTo (console.performAll done).bus
    (FrameTime.ofDot 261 280)
  rw [hprompt.cycleOffset] at hlower
  -- the round that follows the run to dot 280 begins before dot 312
  have hupper :
      (((console.performAll done).act (.runCpu (FrameTime.ofDot 261 280))).cpu.cycle : ℚ) ≤
        FrameTime.ofDot 261 312 + console.cpu.cycleOffset := by
    refine hreached.cycle_le.trans ?_
    rw [FrameTime.ofDot_exact, FrameTime.ofDot_exact]
    push_cast
    linarith
  have huntil : ∀ a ∈ .perform .preRender ⟨280, .fetchSprite 3⟩ ::
      after.flatMap Line.preRender.actsOf, a.Until FrameTime.frameCycles := by
    intro a ha
    have hlast : (FrameTime.ofDot Line.preRender.number 328 : ℚ) ≤ FrameTime.frameCycles :=
      FrameTime.ofDot_le_frameCycles (by decide) (by decide)
    have hline : a ∈ Line.preRender.acts true := by
      rw [Line.acts, hevents, List.flatMap_append, List.flatMap_cons]
      exact List.mem_append_right _ (.tail _ ha)
    exact Line.until_of_mem hlast hline
  obtain ⟨start, hbegins⟩ :
      ∃ start, ((console.performAll done).act (.runCpu (FrameTime.ofDot 261 280))).Begins
        (.perform .preRender ⟨280, .fetchSprite 3⟩ :: after.flatMap Line.preRender.actsOf)
        ((console.performAll done).act (.runCpu (FrameTime.ofDot 261 280))).cpu.cycle start := by
    have hmem : FrameAct.runCpu (FrameTime.ofDot 261 312 : ℚ) ∈
        after.flatMap Line.preRender.actsOf :=
      List.mem_flatMap.mpr ⟨_, hlate, List.mem_cons_self ..⟩
    refine Console.begins_of_limit (h.running _ _ hreached.keeps) huntil (.tail _ hmem) ?_
    rw [hreached.cycleOffset]
    exact hupper
  refine ⟨hrendering, _, start, ?_, hlower, hupper⟩
  rw [hframe, Console.begins_append, Console.performAll_append]
  exact .inr ((Console.begins_append _ _ _ _ _).mpr (.inl hbegins))

end

/-! ## A program that changes the picture's first row -/

/-- The program shows both layers and then writes `$18` and `$1A` in turn to the control register,
which moves the beginning of the picture from one nametable to another. -/
def togglingProgram : Array UInt8 :=
  #[
    -- LDA #$18, STA $2001
    0xA9, 0x18, 0x8D, 0x01, 0x20,
    -- $8005: EOR #$02, STA $2000, JMP $8005
    0x49, 0x02, 0x8D, 0x00, 0x20, 0x4C, 0x05, 0x80,
    0xEA, 0xEA, 0xEA, 0xEA, 0xEA, 0xEA, 0xEA, 0xEA, 0xEA, 0xEA, 0xEA, 0xEA, 0xEA, 0xEA, 0xEA,
    -- the start address
    0x00, 0x80,
    0xEA, 0xEA]

/-- Where the program is between two rounds. -/
inductive Toggling (cpu : Cpu ℚ) (mask : Mask) : Prop where
  | load (pc : cpu.registers.pc = 0x8000) (cycle : cpu.cycle = 7)
  | reveal (pc : cpu.registers.pc = 0x8002) (cycle : cpu.cycle = 9) (a : cpu.registers.a = 0x18)
  | flip (pc : cpu.registers.pc = 0x8005) (rendering : mask = ⟨0x18⟩)
      (a : cpu.registers.a = 0x18 ∨ cpu.registers.a = 0x1A)
  | store (pc : cpu.registers.pc = 0x8007) (rendering : mask = ⟨0x18⟩)
      (a : cpu.registers.a = 0x18 ∨ cpu.registers.a = 0x1A)
  | jump (pc : cpu.registers.pc = 0x800A) (rendering : mask = ⟨0x18⟩)
      (a : cpu.registers.a = 0x18 ∨ cpu.registers.a = 0x1A)

/-- The program runs, and nothing interrupts it. -/
structure RunsToggling (cpu : Cpu ℚ) (bus : Bus Nrom SilentApu Unplugged) : Prop
    extends Undisturbed togglingProgram cpu bus where
  place : Toggling cpu bus.ppu.mask

namespace RunsToggling

variable {cpu : Cpu ℚ} {bus : Bus Nrom SilentApu Unplugged}

/-- A round of the program takes at most four cycles. -/
theorem advance (h : RunsToggling cpu bus) :
    RunsToggling (cpu.advance bus).1 (cpu.advance bus).2 ∧
      (cpu.advance bus).1.cycle ≤ cpu.cycle + 4 := by
  have hnone : bus.dmaPage = none := h.dmaPage
  cases h.place with
  | load pc cycle =>
    rw [h.advance_immediate pc (by decide) (by decide) rfl rfl rfl (by decide) rfl]
    refine ⟨⟨⟨⟨h.program, h.jammed, hnone, h.nmiPending⟩, h.nmiEnabled⟩, ?_⟩, by simp⟩
    exact .reveal rfl (congrArg (· + 2) cycle) rfl
  | reveal pc cycle a =>
    rw [h.advance_absolute pc (by decide) (by decide) (by decide) rfl rfl rfl rfl (by decide)
      (fun _ _ => rfl) rfl, Executes.serveTransfer_of_none _ (by exact hnone)]
    refine ⟨⟨⟨⟨h.program, h.jammed, hnone, h.nmiPending⟩, h.nmiEnabled⟩, ?_⟩, by simp⟩
    exact .flip rfl (congrArg Mask.mk a) (.inl a)
  | flip pc rendering a =>
    rw [h.advance_immediate pc (by decide) (by decide) rfl rfl rfl (by decide) rfl]
    refine ⟨⟨⟨⟨h.program, h.jammed, hnone, h.nmiPending⟩, h.nmiEnabled⟩, ?_⟩, by simp⟩
    refine .store rfl rendering ?_
    show cpu.registers.a ^^^ 2 = 0x18 ∨ cpu.registers.a ^^^ 2 = 0x1A
    rcases a with a | a
    · right
      rw [a]
      rfl
    · left
      rw [a]
      rfl
  | store pc rendering a =>
    rw [h.advance_absolute pc (by decide) (by decide) (by decide) rfl rfl rfl rfl (by decide)
      (fun _ _ => rfl) rfl, Executes.serveTransfer_of_none _ (by exact hnone)]
    have hdisabled : Control.nmiEnabled ⟨cpu.registers.a⟩ = false := by
      rcases a with a | a
      · rw [a]
        rfl
      · rw [a]
        rfl
    have hpending : (bus.ppu.nmiPending || (!bus.ppu.control.nmiEnabled &&
        Control.nmiEnabled ⟨cpu.registers.a⟩ && bus.ppu.status.vblank)) = false := by
      rw [hdisabled, h.nmiPending, Bool.and_false, Bool.false_and, Bool.or_false]
    refine ⟨⟨⟨⟨h.program, h.jammed, hnone, hpending⟩, hdisabled⟩, ?_⟩, by simp⟩
    exact .jump rfl rendering a
  | jump pc rendering a =>
    rw [h.advance_absolute pc (by decide) (by decide) (by decide) rfl rfl rfl rfl (by decide)
      (fun _ _ => rfl) rfl, Executes.serveTransfer_of_none _ (by exact hnone)]
    refine ⟨⟨⟨⟨h.program, h.jammed, hnone, h.nmiPending⟩, h.nmiEnabled⟩, ?_⟩, by simp⟩
    exact .flip rfl rendering a

theorem brisk : Brisk RunsToggling where
  running _ _ h := h.jammed
  advance _ _ h := ⟨h.advance.1, h.advance.2.trans (by omega)⟩
  answerNmi _ _ h := by
    rw [h.answerNmi_eq]
    exact ⟨rfl, h⟩
  perform cpu bus step h := by
    have hmask := (step.run_settings_eq bus.ppu bus.cartridge).mask
    exact ⟨h.toUndisturbed.perform step, hmask ▸ h.place⟩
  beginVblank _ _ h := ⟨h.toUndisturbed.beginVblank, h.place⟩
  endVblank _ _ h := ⟨h.toUndisturbed.endVblank, h.place⟩

end RunsToggling

namespace Console

/-- The program, about to run. -/
def toggling : Console ℚ Nrom SilentApu Unplugged :=
  .new (.new togglingProgram #[] .vertical) .new ⟨⟩ ⟨⟩ .default

theorem runsToggling_toggling : RunsToggling toggling.cpu toggling.bus where
  program := rfl
  jammed := rfl
  dmaPage := rfl
  nmiPending := rfl
  nmiEnabled := rfl
  place := .load rfl rfl

theorem reloadsLate_toggling : toggling.ReloadsLate := by
  have hcycle : toggling.cpu.cycle = 7 := rfl
  have hoffset : toggling.cpu.cycleOffset = 0 := Nat.cast_zero
  have hstart : (toggling.cpu.cycle : ℚ) ≤ FrameTime.ofDot 261 280 := by
    rw [hcycle, FrameTime.ofDot_exact]
    norm_num
  have hhead : toggling.preRenderHead.Prompt RunsToggling 0 (FrameTime.ofDot 261 280) :=
    RunsToggling.brisk.performAll ⟨runsToggling_toggling, hoffset, by linarith⟩
      fun _ => within_early
  have hlate := toggling.lt_cycle_preRenderHead
  rw [hhead.cycleOffset, FrameTime.ofDot_exact] at hlate
  have hrendering : toggling.preRenderHead.bus.ppu.rendering = true := by
    have hmask (h : toggling.preRenderHead.bus.ppu.mask = ⟨0x18⟩) :
        toggling.preRenderHead.bus.ppu.rendering = true := by
      have hstart : toggling.bus.ppu.NotesMask := rfl
      have hnoted : toggling.preRenderHead.bus.ppu.NotesMask := notesMask_performAll hstart _
      rw [hnoted, h]
      rfl
    cases hhead.keeps.place with
    | load _ cycle =>
      rw [cycle] at hlate
      norm_num at hlate
    | reveal _ cycle =>
      rw [cycle] at hlate
      norm_num at hlate
    | flip _ rendering => exact hmask rendering
    | store _ rendering => exact hmask rendering
    | jump _ rendering => exact hmask rendering
  exact RunsToggling.brisk.reloadsLate runsToggling_toggling hstart hoffset.ge hrendering

/-- A frame of a reachable console is in dot order unless it returns to the first row too late, or
an interrupt bridges the dot of a step. -/
theorem inDotOrder_iff {C A D : Type} [Cartridge C] [Apu A] [Controller D]
    {console : Console ℚ C A D} (h : console.Reachable) :
    console.InDotOrder ↔ ¬ console.ReloadsLate ∧ ¬ console.InterruptedAtDot :=
  inDotOrder_iff_of_halfCycle (halfCycle_of_reachable h)

theorem inDotOrder_toggling_iff :
    toggling.Reachable ∧
      (toggling.InDotOrder ↔ ¬ toggling.ReloadsLate ∧ ¬ toggling.InterruptedAtDot) :=
  ⟨.new _ _ _ _ _, inDotOrder_iff (.new _ _ _ _ _)⟩

/-- The frame of that program is not in dot order. -/
theorem not_inDotOrder_toggling : toggling.Reachable ∧ ¬ toggling.InDotOrder :=
  ⟨.new _ _ _ _ _, reloadsLate_toggling.not_inDotOrder⟩

end Console

end Famicom
