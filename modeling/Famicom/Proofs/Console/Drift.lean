import Famicom.Proofs.Console.Acts
import Famicom.Proofs.Console.Calls
import Famicom.Proofs.Cpu.ExactTime

/-!
# No drift

A frame lasts 29780.5 cycles, which no instruction stream hits. What a frame runs too long is taken
off the next one, and the half cycle is carried, so a console is never more than one round late
however many frames it has run.

* `Timely.act`: an act of a frame keeps the counters on schedule and within one round of the
  latest limit.
* `timely_runUnpainted`: so does a frame.
* `runCalls_no_drift`: from power-on on, the counters of every frame are the exact ones.
-/

namespace Famicom

/-- No event of a line is due after dot 328. -/
theorem Line.dot_le {line : Line} {rendering : Bool} {event : Event}
    (h : event ∈ line.events rendering) : event.dot ≤ 328 := by
  have htiles : event ∈ line.tileEvents rendering → event.dot ≤ 328 := by
    simp only [tileEvents, List.mem_flatMap, List.mem_map]
    rintro ⟨tile, -, step, -, rfl⟩
    dsimp only
    omega
  have hclosing : event ∈ line.closingEvents → event.dot ≤ 328 := by
    cases line <;> simp only [closingEvents, List.mem_append, List.mem_cons, List.mem_map]
    · rintro (((rfl | ⟨slot, -, rfl⟩) | h) | rfl | rfl | h)
      all_goals first | (dsimp only; omega) | cases h
    · rintro (((rfl | ⟨slot, -, rfl⟩) | rfl | rfl | h) | rfl | rfl | h)
      all_goals first | (dsimp only; omega) | cases h
  rw [events, List.cons_append, List.mem_cons, List.mem_append] at h
  rcases h with rfl | h | h
  · exact Nat.zero_le _
  · exact htiles h
  · cases rendering with
    | true => exact hclosing h
    | false =>
      rw [List.mem_singleton.mp h]
      decide

/-- An act that runs the processor no further than `most`, if at all, and leaves the frame open. -/
def FrameAct.Until (most : ℚ) : FrameAct ℚ → Prop
  | .runCpu limit => limit ≤ most
  | .answerNmi | .close => False
  | _ => True

theorem Line.until_of_mem {line : Line} {rendering : Bool} {most : ℚ} {a : FrameAct ℚ}
    (hmost : (FrameTime.ofDot line.number 328 : ℚ) ≤ most) (h : a ∈ line.acts rendering) :
    a.Until most := by
  simp only [Line.acts, Line.actsOf, List.mem_flatMap, List.mem_cons] at h
  obtain ⟨event, hevent, rfl | rfl | h⟩ := h
  · have hdot := Line.dot_le hevent
    exact (FrameTime.ofDot_le_ofDot (by omega)).trans hmost
  · trivial
  · cases h

namespace Console

variable {C A D : Type} [Cartridge C] [Apu A] [Controller D]

/-- Up to the beginning of vertical blanking, no run goes past the dot at which it begins. -/
theorem until_vblank {console : Console ℚ C A D} {a : FrameAct ℚ}
    (h : a ∈ console.schedule pictureStages) : a.Until (FrameTime.ofDot Line.vblank 1) := by
  have hpost : (FrameTime.ofDot Line.postRender 0 : ℚ) ≤ FrameTime.ofDot Line.vblank 1 :=
    FrameTime.ofDot_le_ofDot (by decide)
  obtain ⟨stage, hstage, rendering, hmem⟩ := mem_schedule h
  simp only [pictureStages, screenStages, List.mem_append, List.mem_flatMap,
    List.mem_cons] at hstage
  obtain ⟨y, -, rfl | rfl | hnil⟩ | rfl | hnil := hstage
  · rw [List.mem_singleton.mp hmem]
    trivial
  · refine Line.until_of_mem (FrameTime.ofDot_le_ofDot ?_) hmem
    simp only [Line.number, Line.vblank]
    omega
  · cases hnil
  · simp only [Stage.unfold, List.mem_cons] at hmem
    rcases hmem with rfl | rfl | rfl | rfl | rfl | hnil
    · trivial
    · exact hpost
    · trivial
    · exact le_refl _
    · trivial
    · cases hnil
  · cases hnil

/-- After that, no run goes past the end of the frame. -/
theorem until_end {console : Console ℚ C A D} {a : FrameAct ℚ}
    (h : a ∈ console.schedule blankingStages) : a.Until FrameTime.frameCycles := by
  have hlast (dot : Nat) (hdot : dot ≤ 340) :
      (FrameTime.ofDot Line.preRender.number dot : ℚ) ≤ FrameTime.frameCycles :=
    FrameTime.ofDot_le_frameCycles (by decide) hdot
  obtain ⟨stage, hstage, rendering, hmem⟩ := mem_schedule h
  simp only [blankingStages, List.mem_cons] at hstage
  obtain rfl | rfl | hnil := hstage
  · simp only [Stage.unfold, List.mem_cons] at hmem
    rcases hmem with rfl | rfl | rfl | hnil
    · trivial
    · exact hlast 1 (by decide)
    · trivial
    · cases hnil
  · exact Line.until_of_mem (hlast 328 (by decide)) hmem
  · cases hnil

/-! ## The counters during a frame -/

/-- The frame began at `due`, and no round has begun more than `most` cycles after that. -/
structure Timely (console : Console ℚ C A D) (due most : ℚ) : Prop where
  onSchedule : console.cpu.OnSchedule due
  totalCycles_le : console.cpu.totalCycles ≤ due + most + 529

section

variable {T : Type} [Time T]

theorem elapsed_answerNmi (console : Console T C A D) :
    ∃ cycles ≤ 7, Cpu.Elapsed cycles console.cpu (console.act .answerNmi).cpu := by
  simp only [act, Cpu.answerNmi]
  split
  · exact ⟨7, le_refl _, Cpu.elapsed_nmi _ _⟩
  · exact ⟨0, by decide, .refl _⟩

/-- As long as the frame is open, both counters show the time that passes. -/
theorem elapsed_act (console : Console T C A D) {a : FrameAct T} (ha : a ≠ .close) :
    ∃ cycles, Cpu.Elapsed cycles console.cpu (console.act a).cpu := by
  cases a with
  | runCpu limit => exact Cpu.elapsed_runTo _ _ _
  | answerNmi =>
    obtain ⟨cycles, -, he⟩ := console.elapsed_answerNmi
    exact ⟨cycles, he⟩
  | close => exact absurd rfl ha
  | _ => exact ⟨0, .refl _⟩

theorem elapsed_performAll (console : Console T C A D) {acts : List (FrameAct T)}
    (hopen : .close ∉ acts) :
    ∃ cycles, Cpu.Elapsed cycles console.cpu (console.performAll acts).cpu :=
  performAll_induction (P := fun c => ∃ cycles, Cpu.Elapsed cycles console.cpu c.cpu)
    (fun a ha c ⟨_, hc⟩ => by
      obtain ⟨_, he⟩ := c.elapsed_act (fun h => hopen (h ▸ ha))
      exact ⟨_, hc.trans he⟩) ⟨0, .refl _⟩

end

/-- After a run to a limit, the frame has passed it. -/
theorem lt_cycle_performAll (console : Console ℚ C A D) {acts : List (FrameAct ℚ)} {limit : ℚ}
    (hopen : .close ∉ acts) (hmem : .runCpu limit ∈ acts) :
    limit + console.cpu.cycleOffset < (console.performAll acts).cpu.cycle := by
  obtain ⟨before, after, rfl⟩ := List.append_of_mem hmem
  simp only [List.mem_append, List.mem_cons, not_or] at hopen
  obtain ⟨_, hbefore⟩ := console.elapsed_performAll hopen.1
  rw [performAll_append, performAll_cons]
  generalize console.performAll before = reached at hbefore
  obtain ⟨_, hafter⟩ := (reached.act (.runCpu limit)).elapsed_performAll hopen.2.2
  have hlate : limit + reached.cpu.cycleOffset < (reached.act (.runCpu limit)).cpu.cycle :=
    reached.cpu.lt_cycle_runTo reached.bus limit
  rw [hbefore.cycleOffset] at hlate
  rw [hafter.cycle]
  push_cast
  linarith

theorem Timely.act {console : Console ℚ C A D} {due most : ℚ} {a : FrameAct ℚ}
    (h : console.Timely due most) (ha : a.Until most) : (console.act a).Timely due most := by
  cases a with
  | runCpu limit =>
    exact ⟨h.onSchedule.runTo console.bus limit,
      h.onSchedule.totalCycles_runTo_le console.bus ha h.totalCycles_le⟩
  | answerNmi => exact ha.elim
  | close => exact ha.elim
  | _ => exact ⟨h.onSchedule, h.totalCycles_le⟩

/-- The interrupt of vertical blanking comes long before the end of the frame. -/
theorem Timely.answerNmi {console : Console ℚ C A D} {due : ℚ}
    (h : console.Timely due (FrameTime.ofDot Line.vblank 1)) :
    (console.act .answerNmi).Timely due FrameTime.frameCycles := by
  obtain ⟨cycles, hle, he⟩ := console.elapsed_answerNmi
  have hcycles : (cycles : ℚ) ≤ 7 := by exact_mod_cast hle
  have hmost := h.totalCycles_le
  refine ⟨h.onSchedule.elapsed he, ?_⟩
  rw [he.totalCycles, FrameTime.frameCycles_exact]
  rw [FrameTime.ofDot_exact] at hmost
  simp only [Line.vblank] at hmost
  push_cast at hmost ⊢
  linarith

/-- What comes before an act of a frame lies before the end of the frame. -/
theorem prefix_frameBody {T : Type} [Time T] {console : Console T C A D} {acts : List (FrameAct T)}
    {a : FrameAct T} (hacts : acts ++ [a] <+: console.frameActs) : acts <+: console.frameBody := by
  rw [frameActs, List.prefix_concat_iff] at hacts
  rcases hacts with heq | hpre
  · rewrite [List.append_inj_left' heq rfl]
    exact List.prefix_refl _
  · exact (List.prefix_append acts [a]).trans hpre

/-- At every point of a frame, the counters show the time since it began. -/
theorem onSchedule_performAll {console : Console ℚ C A D} {due : ℚ} (h : console.cpu.OnSchedule due)
    {acts : List (FrameAct ℚ)} {a : FrameAct ℚ} (hacts : acts ++ [a] <+: console.frameActs) :
    (console.performAll acts).cpu.OnSchedule due := by
  obtain ⟨_, he⟩ := console.elapsed_performAll fun hmem =>
    console.close_notMem_frameBody ((prefix_frameBody hacts).subset hmem)
  exact h.elapsed he

/-- Only the whole frame comes before its end is taken off. -/
theorem eq_frameBody_of_close {console : Console ℚ C A D} {acts : List (FrameAct ℚ)}
    (hacts : acts ++ [.close] <+: console.frameActs) : acts = console.frameBody := by
  rw [frameActs, List.prefix_concat_iff] at hacts
  rcases hacts with heq | hpre
  · exact List.append_inj_left' heq rfl
  · have hmem : .close ∈ console.frameBody := hpre.subset (List.mem_concat_self ..)
    exact absurd hmem console.close_notMem_frameBody

/-- Vertical blanking begins late by at most a round. -/
theorem timely_picture {console : Console ℚ C A D} {due : ℚ} (h : console.Timely due 0) :
    (console.performAll (console.schedule pictureStages)).Timely due
      (FrameTime.ofDot Line.vblank 1) := by
  have hnonneg : (0 : ℚ) ≤ FrameTime.ofDot Line.vblank 1 := by
    rw [FrameTime.ofDot_exact]
    positivity
  have hstart : console.Timely due (FrameTime.ofDot Line.vblank 1) :=
    ⟨h.onSchedule, by linarith [h.totalCycles_le]⟩
  exact performAll_induction (P := (Timely · due (FrameTime.ofDot Line.vblank 1)))
    (fun a ha c hc => hc.act (until_vblank ha)) hstart

/-- Before its end is taken off, a frame is past its end by at most a round. -/
theorem timely_body {console : Console ℚ C A D} {due : ℚ} (h : console.Timely due 0) :
    (console.performAll console.frameBody).Timely due FrameTime.frameCycles ∧
      due + FrameTime.frameCycles < (console.performAll console.frameBody).cpu.totalCycles := by
  have hblanking (first : Console ℚ C A D) (hfirst : first.Timely due FrameTime.frameCycles) :
      (first.performAll (first.schedule blankingStages)).Timely due FrameTime.frameCycles :=
    performAll_induction (P := (Timely · due FrameTime.frameCycles))
      (fun a ha c hc => hc.act (until_end ha)) hfirst
  simp only [frameBody, frameStages, schedule_append, performAll_append, performAll_cons,
    performAll_nil, schedule]
  have hlast := hblanking _ (timely_picture h).answerNmi
  exact ⟨hlast.act (a := .runCpu _) (le_refl _), hlast.onSchedule.lt_totalCycles_runTo _ _⟩

/-- A frame leaves the counters where the next one begins, late by at most a round. -/
theorem timely_runUnpainted {console : Console ℚ C A D} {due : ℚ} (h : console.Timely due 0) :
    console.runUnpainted.Timely (due + FrameTime.frameCycles) 0 ∧
      due + FrameTime.frameCycles < console.runUnpainted.cpu.totalCycles := by
  obtain ⟨hbody, hend⟩ := timely_body h
  rw [runUnpainted_eq, frameActs, performAll_append]
  generalize console.performAll console.frameBody = last at hbody hend
  refine ⟨⟨hbody.onSchedule.endFrame ?_ hend, ?_⟩, hend⟩
  · rw [FrameTime.frameCycles_exact]
    norm_num
  · show (last.cpu.totalCycles : ℚ) ≤ _
    linarith [hbody.totalCycles_le]

/-! ## From power-on on -/

theorem timely_powerOn (console : Console ℚ C A D) :
    console.powerOn.Timely 0 0 ∧ (0 : ℚ) < console.powerOn.cpu.totalCycles := by
  have htotal : console.powerOn.cpu.totalCycles = 7 := rfl
  refine ⟨⟨⟨?_, ?_⟩, ?_⟩, ?_⟩
  · rw [Int.fract_zero]
    exact Nat.cast_zero
  · rw [Int.floor_zero]
    exact Int.sub_self _
  · rw [htotal]
    norm_num
  · rw [htotal]
    norm_num

theorem timely_runCalls {S : Type} [VideoSink S] (console : Console ℚ C A D) (sink : S)
    (calls : List FrameCall) :
    ((console.powerOn.runCalls sink calls).1.Timely (calls.length * FrameTime.frameCycles) 0) ∧
      calls.length * FrameTime.frameCycles <
        ((console.powerOn.runCalls sink calls).1.cpu.totalCycles : ℚ) := by
  have hstart : console.powerOn.Timely ((0 : ℕ) * (FrameTime.frameCycles : ℚ)) 0 ∧
      ((0 : ℕ) * (FrameTime.frameCycles : ℚ)) < console.powerOn.cpu.totalCycles := by
    rw [Nat.cast_zero, zero_mul]
    exact console.timely_powerOn
  have hrun := runCalls_induction
    (P := fun n c => c.Timely (n * (FrameTime.frameCycles : ℚ)) 0 ∧
      n * (FrameTime.frameCycles : ℚ) < c.cpu.totalCycles) (fun n c hc => ?_) hstart sink calls
  · rw [Nat.zero_add] at hrun
    exact hrun
  · have hframe := timely_runUnpainted hc.1
    have hsucc : (n : ℚ) * FrameTime.frameCycles + FrameTime.frameCycles =
        ((n + 1 : ℕ) : ℚ) * FrameTime.frameCycles := by
      push_cast
      ring
    rw [hsucc] at hframe
    exact hframe

/-- After `n` frames since power-on, however they were asked for, the counters show that the frame
began at cycle `29780.5 n`, at most 529 cycles ago: an interrupt, the longest instruction and the
longest transfer. So every guard of the next frame compares the cycles since power-on with an exact
limit, and at its end there are enough cycles to take it off. -/
theorem runCalls_no_drift {S : Type} [VideoSink S] (console : Console ℚ C A D) (sink : S)
    (calls : List FrameCall) :
    let due : ℚ := calls.length * 29780.5
    let now := (console.powerOn.runCalls sink calls).1
    now.cpu.cycleOffset = Int.fract due ∧
      (now.cpu.totalCycles : ℤ) - now.cpu.cycle = ⌊due⌋ ∧
      due < now.cpu.totalCycles ∧ now.cpu.totalCycles ≤ due + 529 ∧
      (∀ acts limit, acts ++ [.runCpu limit] <+: now.frameActs → ∀ n : Nat,
        let cpu := ((now.performAll acts).cpu.rounds (now.performAll acts).bus n).1
        (cpu.Due limit ↔ (cpu.cycle : ℚ) ≤ limit + cpu.cycleOffset) ∧
          (cpu.Due limit ↔ (cpu.totalCycles : ℚ) ≤ due + limit)) ∧
      ∀ acts, acts ++ [.close] <+: now.frameActs →
        let cpu := (now.performAll acts).cpu
        ⌊cpu.cycleOffset + FrameTime.frameCycles⌋ ≤ cpu.cycle := by
  intro due now
  have hnow : now.Timely due 0 ∧ due < now.cpu.totalCycles := by
    have hrun := console.timely_runCalls sink calls
    rw [FrameTime.frameCycles_exact] at hrun
    exact hrun
  obtain ⟨htimely, hlate⟩ := hnow
  refine ⟨htimely.onSchedule.cycleOffset, htimely.onSchedule.cycles, hlate, ?_, ?_, ?_⟩
  · linarith [htimely.totalCycles_le]
  · intro acts limit hacts n cpu
    have hcpu := (onSchedule_performAll htimely.onSchedule hacts).rounds (now.performAll acts).bus n
    exact ⟨cpu.due_iff limit, hcpu.due_iff limit⟩
  · intro acts hacts cpu
    obtain ⟨hlast, hend⟩ := timely_body htimely
    rw [← eq_frameBody_of_close hacts] at hlast hend
    exact hlast.onSchedule.whole_le_cycle hend

end Console

end Famicom
