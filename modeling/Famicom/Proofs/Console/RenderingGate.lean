import Famicom.Proofs.Console.Drift
import Famicom.Proofs.Cpu.Passive
import Famicom.Proofs.Cpu.Program

/-!
# When the current address moves

The picture unit moves the current address through the nametables as it renders. Whether it renders
on a line is decided at the line's head, and the mask can be written between any two steps of the
line, so the address goes on moving to the end of a line on which a program has switched rendering
off.

* `PpuStep.run_v`: the steps that move the current address.
* `Console.rendering_performAll`: whether the unit renders is what was last written to the mask.
* `Console.notesMask_performAll`: what is noted about rendering stays what the mask says.
* `Console.movesWhileRendering_iff`: the address moves while rendering is on, unless a program
  switches it off between the head of a line and the last of the line's steps.
-/

namespace Famicom

/-! ## The steps that move the current address -/

/-- Whether a step moves the current address: it fetches a tile and goes to the next column, goes to
the next row, or returns to the first one. -/
def PpuStep.movesV : PpuStep → Bool
  | fetchColumn | nextRow | reloadRow => true
  | _ => false

/-- No other step moves it. -/
theorem PpuStep.run_v {C : Type} [Cartridge C] {step : PpuStep} (h : step.movesV = false)
    (ppu : Ppu) (cartridge : C) : (step.run ppu cartridge).1.v = ppu.v := by
  cases step with
  | fetchSprite slot => exact congrArg (·.v) (ppu.fetchSprite_changes cartridge slot)
  | fetchColumn => cases h
  | nextRow => cases h
  | reloadRow => cases h
  | _ => rfl

/-- A line that is not rendered has no such step. -/
theorem Line.movesV_of_not_rendering {line : Line} {event : Event}
    (h : event ∈ line.events false) : event.step.movesV = false := by
  cases line with
  | visible y =>
    obtain rfl | ⟨tile, rfl⟩ | rfl : event = ⟨0, .clearSecondaryOam⟩ ∨
        (∃ tile : Fin 32, event = ⟨8 * tile, .drawTile y tile⟩) ∨
          event = ⟨248, .clearSpriteLine⟩ := by
      simpa [events, tileEvents, tileSteps] using h
    all_goals rfl
  | preRender =>
    obtain rfl | rfl : event = ⟨0, .clearSecondaryOam⟩ ∨ event = ⟨248, .clearSpriteLine⟩ := by
      simpa [events, tileEvents, tileSteps] using h
    all_goals rfl

/-! ## The mask -/

/-- What an access writes to the mask. -/
def Access.mask? : Access → Option Mask
  | .read _ => none
  | .write address value => if ppuRegister? address = some 1 then some ⟨value⟩ else none

section

variable {C A D : Type} [Cartridge C] [Apu A] [Controller D]

/-- On a recorder, whether the unit renders is what was last written to the mask. -/
theorem Recorder.keeps_rendering (rendering : Bool) :
    Keeps (fun _ => True) fun r : Recorder (Bus C A D) =>
      r.bus.ppu.rendering =
        ((r.accesses.findSome? Access.mask?).map Mask.rendering).getD rendering where
  read r address _ h := (r.bus.read_steering address).rendering.trans h
  write r address value _ h := by
    have hrendering := (r.bus.write_steering address value).2.1
    show (r.bus.write address value).ppu.rendering = _
    by_cases haddress : ppuRegister? address = some 1
    · simp [hrendering, haddress, SystemBus.write, Access.mask?]
    · simp [hrendering, haddress, SystemBus.write, Access.mask?, h]
  clock _ _ h := h
  takeNmi _ h := h
  takeDmaRequest _ h := h
  writeOam _ _ h := h

/-- Whatever the processor accesses, what is noted about rendering stays what the mask says. -/
theorem keeps_notesMask : Keeps (fun _ => True) fun bus : Bus C A D => bus.ppu.NotesMask where
  read bus address _ h := (bus.read_steering address).notesMask h
  write bus address value _ h := by
    show (bus.write address value).ppu.NotesMask
    rcases bus.write_ppu address value with ⟨-, hppu⟩ | ⟨-, hppu⟩
    · exact hppu ▸ h
    · exact hppu ▸ h.writeRegister bus.cartridge address value
  clock _ _ h := h
  takeNmi _ h := h
  takeDmaRequest _ h := h
  writeOam _ _ h := h

namespace Console

variable {T : Type} [Time T]

/-- What the processor last writes to the mask in some acts, if anything. -/
def lastMask? (console : Console T C A D) : List (FrameAct T) → Option Mask
  | [] => none
  | a :: rest =>
    ((console.act a).lastMask? rest).or ((console.accessesOf a).findSome? Access.mask?)

/-- Apart from the end of vertical blanking, only a write to the mask decides whether the unit
renders. -/
theorem rendering_act (console : Console T C A D) {a : FrameAct T} (h : a ≠ .endVblank) :
    (console.act a).bus.ppu.rendering =
      (((console.accessesOf a).findSome? Access.mask?).map Mask.rendering).getD
        console.bus.ppu.rendering := by
  have hkeeps := Recorder.keeps_rendering (C := C) (A := A) (D := D) console.bus.ppu.rendering
  cases a with
  | runCpu limit =>
    have hrun : (console.cpu.runTo (Recorder.start console.bus) limit).2.bus.ppu.rendering =
        (((console.cpu.accesses console.bus limit).findSome? Access.mask?).map
          Mask.rendering).getD console.bus.ppu.rendering :=
      hkeeps.runTo console.cpu rfl fun _ _ => trivial
    have hbare := Recorder.busMap_bus.runTo console.cpu (Recorder.start console.bus) limit
    show (console.cpu.runTo (Recorder.start console.bus).bus limit).2.ppu.rendering = _
    rw [hbare]
    exact hrun
  | answerNmi =>
    have hrun : (console.cpu.answerNmi (Recorder.start console.bus)).2.bus.ppu.rendering =
        (((console.cpu.nmiAccesses console.bus).findSome? Access.mask?).map
          Mask.rendering).getD console.bus.ppu.rendering :=
      hkeeps.answerNmi console.cpu rfl fun _ _ => trivial
    have hbare := Recorder.busMap_bus.answerNmi console.cpu (Recorder.start console.bus)
    show (console.cpu.answerNmi (Recorder.start console.bus).bus).2.ppu.rendering = _
    rw [hbare]
    exact hrun
  | perform line event =>
    exact (event.step.run_settings_eq console.bus.ppu console.bus.cartridge).rendering
  | endVblank => exact absurd rfl h
  | _ => rfl

/-- Up to the end of vertical blanking, whether the unit renders is what was last written to the
mask. -/
theorem rendering_performAll (console : Console T C A D) {acts : List (FrameAct T)}
    (h : .endVblank ∉ acts) :
    (console.performAll acts).bus.ppu.rendering =
      ((console.lastMask? acts).map Mask.rendering).getD console.bus.ppu.rendering := by
  induction acts generalizing console with
  | nil => rfl
  | cons a acts ih =>
    have hne : a ≠ .endVblank := fun heq => h (heq ▸ List.mem_cons_self ..)
    rw [performAll_cons, ih _ fun hmem => h (.tail _ hmem), rendering_act console hne, lastMask?]
    cases (console.act a).lastMask? acts <;> rfl

theorem notesMask_act {console : Console T C A D} (h : console.bus.ppu.NotesMask)
    (a : FrameAct T) : (console.act a).bus.ppu.NotesMask := by
  cases a with
  | runCpu limit => exact keeps_notesMask.runTo console.cpu h fun _ _ => trivial
  | answerNmi => exact keeps_notesMask.answerNmi console.cpu h fun _ _ => trivial
  | perform line event =>
    exact (event.step.run_settings_eq console.bus.ppu console.bus.cartridge).notesMask h
  | endVblank => rfl
  | _ => exact h

/-- Whatever a frame does, what is noted about rendering stays what the mask says. -/
theorem notesMask_performAll {console : Console T C A D} (h : console.bus.ppu.NotesMask)
    (acts : List (FrameAct T)) : (console.performAll acts).bus.ppu.NotesMask :=
  performAll_induction (P := fun c => c.bus.ppu.NotesMask) (fun a _ _ hc => notesMask_act hc a) h

/-! ## Rendering and movement -/

/-- In the frame that a console begins with, every step that moves the current address is performed
while rendering is on. -/
def MovesWhileRendering (console : Console T C A D) : Prop :=
  ∀ done line event, done ++ [.perform line event] <+: console.frameActs →
    event.step.movesV = true → (console.performAll done).bus.ppu.rendering = true

/-- In the frame that a console begins with, no step changes the current address while rendering is
off, so that the address is the program's own. -/
def KeepsAddressWhileOff (console : Console T C A D) : Prop :=
  ∀ done line event, done ++ [.perform line event] <+: console.frameActs →
    (console.performAll done).bus.ppu.rendering = false →
    ((console.performAll done).act (.perform line event)).bus.ppu.v =
      (console.performAll done).bus.ppu.v

/-- In the frame that a console begins with, the processor switches rendering off on a line that is
rendered, before a step of the line that moves the current address: what it has last written to the
mask since the head of the line shows neither layer. -/
def SwitchesOffMidLine (console : Console T C A D) : Prop :=
  ∃ done line earlier event mask,
    done ++ line.acts true <+: console.frameActs ∧
      (console.performAll done).bus.ppu.rendering = true ∧
      earlier ++ [.perform line event] <+: line.acts true ∧ event.step.movesV = true ∧
      (console.performAll done).lastMask? earlier = some mask ∧
      mask.rendering = false

/-- A line of a frame is scheduled after all that comes before it. -/
theorem prefix_line (console : Console T C A D) {before after : List (Stage T)} {line : Line}
    (h : frameStages = before ++ .line line :: after) :
    console.schedule before ++
      line.acts (console.performAll (console.schedule before)).bus.ppu.rendering <+:
        console.frameActs := by
  rw [frameActs, frameBody, h, schedule_append, schedule]
  simp only [List.append_assoc, List.prefix_append_right_inj]
  exact List.prefix_append _ _

/-- A step that moves the current address is performed on a line that is rendered. -/
theorem prefix_of_movesV {console : Console T C A D} {done : List (FrameAct T)} {line : Line}
    {event : Event} (h : done ++ [.perform line event] <+: console.frameActs)
    (hmoves : event.step.movesV = true) :
    ∃ before earlier, done = before ++ earlier ∧ before ++ line.acts true <+: console.frameActs ∧
      (console.performAll before).bus.ppu.rendering = true ∧
      earlier ++ [.perform line event] <+: line.acts true := by
  have hstages : done ++ [.perform line event] <+: console.schedule frameStages := by
    rw [frameActs, List.prefix_concat_iff] at h
    have hbody := h.resolve_left fun heq => absurd (List.append_inj' heq rfl).2 (by simp)
    rw [frameBody, List.prefix_concat_iff] at hbody
    exact hbody.resolve_left fun heq => absurd (List.append_inj' heq rfl).2 (by simp)
  obtain ⟨before, stage, after, earlier, heq, rfl, hearlier⟩ := prefix_schedule hstages
  have hmem := hearlier.subset (List.mem_concat_self ..)
  obtain ⟨rfl, hevent⟩ : stage = .line line ∧ event ∈ line.events
      (console.performAll (console.schedule before)).bus.ppu.rendering := by
    have hstage : stage ∈ frameStages := by simp [heq]
    cases stage with
    | acts given =>
      simp only [frameStages, pictureStages, screenStages, blankingStages, List.mem_append,
        List.mem_flatMap, List.mem_cons, List.not_mem_nil, or_false] at hstage
      obtain (⟨y, -, hgiven | hgiven⟩ | hgiven) | hgiven | hgiven | hgiven := hstage
      all_goals
        cases hgiven
        try simp [Stage.unfold] at hmem
    | line given =>
      obtain ⟨hevent, rfl⟩ : event ∈ given.events _ ∧ line = given := by
        simpa [Stage.unfold, Line.acts, Line.actsOf] using hmem
      exact ⟨rfl, hevent⟩
  have hhead : (console.performAll (console.schedule before)).bus.ppu.rendering = true := by
    by_contra hoff
    rw [Bool.not_eq_true] at hoff
    rw [hoff] at hevent
    cases (Line.movesV_of_not_rendering hevent).symm.trans hmoves
  rw [hhead] at hearlier
  refine ⟨console.schedule before, earlier, rfl, ?_, hhead, hearlier⟩
  rw [← hhead]
  exact console.prefix_line heq

/-- Vertical blanking does not end within a line. -/
theorem endVblank_notMem {line : Line} {rendering : Bool}
    {earlier later : List (FrameAct T)} (h : earlier ++ later <+: line.acts rendering) :
    .endVblank ∉ earlier := by
  intro hmem
  have hline := h.subset (List.mem_append_left later hmem)
  simp [Line.acts, Line.actsOf] at hline

/-- Where the processor has switched rendering off, the next move finds it off. -/
theorem SwitchesOffMidLine.not_movesWhileRendering {console : Console T C A D}
    (h : console.SwitchesOffMidLine) : ¬ console.MovesWhileRendering := by
  obtain ⟨done, line, earlier, event, mask, hline, hhead, hearlier, hstep, hlast, hoff⟩ := h
  intro hmoves
  have hprefix : done ++ earlier ++ [.perform line event] <+: console.frameActs := by
    rw [List.append_assoc]
    exact (List.prefix_append_right_inj _ |>.mpr hearlier).trans hline
  have hearlier := endVblank_notMem hearlier
  have hon := hmoves _ line event hprefix hstep
  rw [performAll_append, rendering_performAll _ hearlier, hlast, Option.map_some,
    Option.getD_some, hoff] at hon
  cases hon

/-- A move that finds rendering off lies on a line on which the processor has switched it off. -/
theorem movesWhileRendering_of_not {console : Console T C A D}
    (h : ¬ console.SwitchesOffMidLine) : console.MovesWhileRendering := by
  intro done line event hprefix hstep
  obtain ⟨before, earlier, rfl, hline, hhead, hearlier⟩ := prefix_of_movesV hprefix hstep
  by_contra hoff
  rw [performAll_append, rendering_performAll _ (endVblank_notMem hearlier)] at hoff
  cases hlast : (console.performAll before).lastMask? earlier with
  | none =>
    rw [hlast] at hoff
    exact hoff hhead
  | some mask =>
    rw [hlast] at hoff
    exact h ⟨before, line, earlier, event, mask, hline, hhead, hearlier, hstep, hlast,
      Bool.eq_false_iff.mpr hoff⟩

/-- If the address moves only while rendering is on, no step changes it while rendering is off. -/
theorem MovesWhileRendering.keepsAddressWhileOff {console : Console T C A D}
    (h : console.MovesWhileRendering) : console.KeepsAddressWhileOff := by
  intro done line event hprefix hoff
  have hstep : event.step.movesV = false := by
    by_contra hmoves
    have hon := h done line event hprefix (Bool.not_eq_false _ ▸ hmoves)
    rw [hoff] at hon
    cases hon
  exact PpuStep.run_v hstep _ _

/-- In every frame, the current address moves while rendering is on, unless the processor switches
rendering off on a line that is rendered, before the last of the line's moves; and unless it does, a
program that has switched rendering off has the address to itself. -/
theorem movesWhileRendering_iff (console : Console T C A D) :
    (console.MovesWhileRendering ↔ ¬ console.SwitchesOffMidLine) ∧
      (console.SwitchesOffMidLine ∨ console.KeepsAddressWhileOff) := by
  refine ⟨⟨fun hmoves hoff => hoff.not_movesWhileRendering hmoves, movesWhileRendering_of_not⟩, ?_⟩
  by_cases hoff : console.SwitchesOffMidLine
  · exact .inl hoff
  · exact .inr (movesWhileRendering_of_not hoff).keepsAddressWhileOff

end Console

end

/-! ## A program that switches rendering off within a line -/

/-- The program shows both layers, copies a page of work memory to sprite memory, which takes four
lines, and hides the layers again. -/
def veilingProgram : Array UInt8 :=
  #[
    -- LDA #$18, STA $2001
    0xA9, 0x18, 0x8D, 0x01, 0x20,
    -- STA $4014
    0x8D, 0x14, 0x40,
    -- STX $2001
    0x8E, 0x01, 0x20,
    -- $800B: JMP $800B
    0x4C, 0x0B, 0x80,
    0xEA, 0xEA, 0xEA, 0xEA, 0xEA, 0xEA, 0xEA, 0xEA, 0xEA, 0xEA, 0xEA, 0xEA, 0xEA, 0xEA,
    -- the start address
    0x00, 0x80,
    0xEA, 0xEA]

/-- Where the program is between two rounds. -/
inductive Veiling (cpu : Cpu ℚ) (mask : Mask) : Prop where
  | load (pc : cpu.registers.pc = 0x8000) (cycle : cpu.cycle = 7) (total : cpu.totalCycles = 7)
      (x : cpu.registers.x = 0)
  | reveal (pc : cpu.registers.pc = 0x8002) (cycle : cpu.cycle = 9) (total : cpu.totalCycles = 9)
      (x : cpu.registers.x = 0) (a : cpu.registers.a = 0x18)
  | copy (pc : cpu.registers.pc = 0x8005) (cycle : cpu.cycle = 13) (total : cpu.totalCycles = 13)
      (x : cpu.registers.x = 0) (a : cpu.registers.a = 0x18) (shown : mask = ⟨0x18⟩)
  | hide (pc : cpu.registers.pc = 0x8008) (cycle : cpu.cycle = 531) (x : cpu.registers.x = 0)
      (shown : mask = ⟨0x18⟩)
  | rest (pc : cpu.registers.pc = 0x800B) (cycle : 531 < cpu.cycle) (hidden : mask = ⟨0⟩)

/-- The program is on the board, and the layers are shown. -/
structure Shows (cpu : Cpu ℚ) (bus : Bus Nrom SilentApu Unplugged) : Prop
    extends Undisturbed veilingProgram cpu bus where
  mask : bus.ppu.mask = ⟨0x18⟩

/-- The program runs, and nothing interrupts it. -/
structure RunsVeiling (cpu : Cpu ℚ) (bus : Bus Nrom SilentApu Unplugged) : Prop
    extends Undisturbed veilingProgram cpu bus where
  cycleOffset : cpu.cycleOffset = 0
  place : Veiling cpu bus.ppu.mask

namespace RunsVeiling

variable {cpu : Cpu ℚ} {bus : Bus Nrom SilentApu Unplugged}

/-- A round of the program; the layers are not hidden before cycle 531. -/
theorem advance (h : RunsVeiling cpu bus) :
    RunsVeiling (cpu.advance bus).1 (cpu.advance bus).2 ∧
      (cpu.cycle < 531 → (cpu.advance bus).1.cycle ≤ 531) := by
  have hnone : bus.dmaPage = none := h.dmaPage
  cases h.place with
  | load pc cycle total x =>
    rw [h.advance_immediate pc (by decide) (by decide) rfl rfl rfl (by decide) rfl]
    refine ⟨⟨⟨⟨h.program, h.jammed, hnone, h.nmiPending⟩, h.nmiEnabled⟩, h.cycleOffset, ?_⟩,
      fun _ => by simp [cycle]⟩
    exact .reveal rfl (congrArg (· + 2) cycle) (congrArg (· + 2) total) x rfl
  | reveal pc cycle total x a =>
    rw [h.advance_absolute pc (by decide) (by decide) (by decide) rfl rfl rfl rfl (by decide)
      (fun _ _ => rfl) rfl, Executes.serveTransfer_of_none _ (by exact hnone)]
    refine ⟨⟨⟨⟨h.program, h.jammed, hnone, h.nmiPending⟩, h.nmiEnabled⟩, h.cycleOffset, ?_⟩,
      fun _ => by simp [cycle]⟩
    exact .copy rfl (congrArg (· + 4) cycle) (congrArg (· + 4) total) x a (congrArg Mask.mk a)
  | copy pc cycle total x a shown =>
    rw [h.advance_absolute pc (by decide) (by decide) (by decide) rfl rfl rfl rfl (by decide)
      (fun _ _ => rfl) rfl, Executes.serveTransfer_of_some _ (congrArg some a)]
    have hcycle : cpu.cycle + 4 + Cpu.transferCycles (cpu.totalCycles + 4) = 531 := by
      rw [cycle, total]
      rfl
    -- the bytes that are copied do not matter
    have hcopied (later : Bus Nrom SilentApu Unplugged) (hlater : Shows cpu later) :
        RunsVeiling
          { cpu with
            registers := { cpu.registers with pc := 0x8005 + 1 + 1 + 1 }
            cycle := cpu.cycle + 4 + Cpu.transferCycles (cpu.totalCycles + 4)
            totalCycles := cpu.totalCycles + 4 + Cpu.transferCycles (cpu.totalCycles + 4) }
          (SystemBus.clock later (Cpu.transferCycles (cpu.totalCycles + 4))) :=
      ⟨⟨⟨hlater.program, h.jammed, hlater.dmaPage, hlater.nmiPending⟩, hlater.nmiEnabled⟩,
        h.cycleOffset, .hide rfl hcycle x hlater.mask⟩
    refine ⟨hcopied _ ?_, fun _ => hcycle.le⟩
    refine Bus.transferPage_of_ram (P := Shows cpu) (fun _ _ hkept => ?_) (by decide) ?_
    · exact ⟨⟨⟨hkept.program, h.jammed, hkept.dmaPage, hkept.nmiPending⟩, hkept.nmiEnabled⟩,
        hkept.mask⟩
    · exact ⟨⟨⟨h.program, h.jammed, rfl, h.nmiPending⟩, h.nmiEnabled⟩, shown⟩
  | hide pc cycle x shown =>
    rw [h.advance_absolute pc (by decide) (by decide) (by decide) rfl rfl rfl rfl (by decide)
      (fun _ _ => rfl) rfl, Executes.serveTransfer_of_none _ (by exact hnone)]
    refine ⟨⟨⟨⟨h.program, h.jammed, hnone, h.nmiPending⟩, h.nmiEnabled⟩, h.cycleOffset, ?_⟩,
      fun hlt => absurd (cycle ▸ hlt) (lt_irrefl _)⟩
    exact .rest rfl (by simp [cycle]) (congrArg Mask.mk x)
  | rest pc cycle hidden =>
    rw [h.advance_absolute pc (by decide) (by decide) (by decide) rfl rfl rfl rfl (by decide)
      (fun _ _ => rfl) rfl, Executes.serveTransfer_of_none _ (by exact hnone)]
    refine ⟨⟨⟨⟨h.program, h.jammed, hnone, h.nmiPending⟩, h.nmiEnabled⟩, h.cycleOffset, ?_⟩,
      fun hlt => absurd (cycle.trans hlt) (lt_irrefl _)⟩
    exact .rest rfl (cycle.trans_le (Nat.le_add_right _ _)) hidden

theorem perform (h : RunsVeiling cpu bus) (step : PpuStep) :
    RunsVeiling cpu { bus with
      ppu := (step.run bus.ppu bus.cartridge).1
      cartridge := (step.run bus.ppu bus.cartridge).2 } := by
  have hmask := (step.run_settings_eq bus.ppu bus.cartridge).mask
  exact ⟨h.toUndisturbed.perform step, h.cycleOffset, hmask ▸ h.place⟩

/-- An act before the end of a frame does not disturb the program. -/
theorem act {console : Console ℚ Nrom SilentApu Unplugged} {most : ℚ} {a : FrameAct ℚ}
    (h : RunsVeiling console.cpu console.bus) (ha : a.Until most) :
    RunsVeiling (console.act a).cpu (console.act a).bus := by
  cases a with
  | runCpu limit =>
    exact Cpu.runTo_induction (P := RunsVeiling) (fun _ _ hp _ => hp.advance.1) h
  | perform line event => exact h.perform event.step
  | beginVblank => exact ⟨h.toUndisturbed.beginVblank, h.cycleOffset, h.place⟩
  | endVblank => exact ⟨h.toUndisturbed.endVblank, h.cycleOffset, h.place⟩
  | answerNmi => exact ha.elim
  | close => exact ha.elim
  | enter phase => exact h

/-- An act that runs the processor to a limit before cycle 531 does not let it hide the layers. -/
theorem cycle_act {console : Console ℚ Nrom SilentApu Unplugged} {most : ℚ} {a : FrameAct ℚ}
    (h : RunsVeiling console.cpu console.bus) (ha : a.Until most) (hmost : most < 531)
    (hcycle : console.cpu.cycle ≤ 531) : (console.act a).cpu.cycle ≤ 531 := by
  cases a with
  | runCpu limit =>
    have hround (cpu : Cpu ℚ) (bus : Bus Nrom SilentApu Unplugged)
        (hp : RunsVeiling cpu bus ∧ cpu.cycle ≤ 531) (hdue : cpu.Due limit) :
        RunsVeiling (cpu.advance bus).1 (cpu.advance bus).2 ∧ (cpu.advance bus).1.cycle ≤ 531 := by
      have hle : limit ≤ most := ha
      rw [Cpu.due_iff, hp.1.cycleOffset] at hdue
      have hbefore : cpu.cycle < 531 := by
        have : (cpu.cycle : ℚ) < (531 : ℕ) := by
          push_cast
          linarith
        exact_mod_cast this
      exact ⟨hp.1.advance.1, hp.1.advance.2 hbefore⟩
    exact (Cpu.runTo_induction hround ⟨h, hcycle⟩).2
  | answerNmi => exact ha.elim
  | close => exact ha.elim
  | _ => exact hcycle

/-- Up to cycle 531 the layers are shown, and the transfer ends there. -/
theorem mask_of_le (h : RunsVeiling cpu bus) (hlate : 13 < cpu.cycle) (hle : cpu.cycle ≤ 531) :
    cpu.cycle = 531 ∧ bus.ppu.mask = ⟨0x18⟩ := by
  cases h.place with
  | load _ cycle => omega
  | reveal _ cycle => omega
  | copy _ cycle => omega
  | hide _ cycle _ shown => exact ⟨cycle, shown⟩
  | rest _ cycle => omega

/-- After cycle 531 the layers are hidden. -/
theorem mask_of_lt (h : RunsVeiling cpu bus) (hcycle : 531 < cpu.cycle) :
    bus.ppu.mask = ⟨0⟩ := by
  cases h.place with
  | load _ cycle => omega
  | reveal _ cycle => omega
  | copy _ cycle => omega
  | hide _ cycle => omega
  | rest _ _ hidden => exact hidden

/-- Once the processor has run past cycle 531, the layers are hidden. -/
theorem mask_performAll {console : Console ℚ Nrom SilentApu Unplugged} {most limit : ℚ}
    {acts : List (FrameAct ℚ)} (h : RunsVeiling console.cpu console.bus)
    (hacts : ∀ a ∈ acts, a.Until most) (hlimit : .runCpu limit ∈ acts) (hlate : 531 ≤ limit) :
    (console.performAll acts).bus.ppu.mask = ⟨0⟩ := by
  have hruns : RunsVeiling (console.performAll acts).cpu (console.performAll acts).bus :=
    Console.performAll_induction
      (P := fun c : Console ℚ Nrom SilentApu Unplugged => RunsVeiling c.cpu c.bus)
      (fun a ha c hc => hc.act (hacts a ha)) h
  have hopen : .close ∉ acts := fun hclose => hacts _ hclose
  have hpast := Console.lt_cycle_performAll console hopen hlimit
  rw [h.cycleOffset, add_zero] at hpast
  refine hruns.mask_of_lt ?_
  have hcycle : (531 : ℚ) < (console.performAll acts).cpu.cycle := lt_of_le_of_lt hlate hpast
  exact_mod_cast hcycle

end RunsVeiling

namespace Console

/-- The program, about to run. -/
def veiling : Console ℚ Nrom SilentApu Unplugged :=
  .new (.new veilingProgram #[] .vertical) .new ⟨⟩ ⟨⟩ .default

theorem runsVeiling_veiling : RunsVeiling veiling.cpu veiling.bus where
  program := rfl
  jammed := rfl
  dmaPage := rfl
  nmiPending := rfl
  nmiEnabled := rfl
  cycleOffset := Nat.cast_zero
  place := .load rfl rfl rfl rfl

theorem notesMask_veiling : veiling.bus.ppu.NotesMask := rfl

/-- The stages before the fifth line of the picture. -/
def fourLines : List (Stage ℚ) :=
  ((List.finRange 240).take 4).flatMap (fun y =>
    [.acts [.enter (.visible y)], .line (.visible y)]) ++ [.acts [.enter (.visible 4)]]

theorem frameStages_fourLines :
    ∃ after, (frameStages : List (Stage ℚ)) = fourLines ++ .line (.visible 4) :: after := by
  obtain ⟨after, hlines⟩ :
      ∃ after, List.finRange 240 = (List.finRange 240).take 4 ++ 4 :: after := by
    have hlength : 4 < (List.finRange 240).length := by simp
    have hdrop := List.drop_eq_getElem_cons hlength
    rw [List.getElem_finRange] at hdrop
    exact ⟨_, (List.take_append_drop 4 _).symm.trans (congrArg _ hdrop)⟩
  refine ⟨after.flatMap (fun y => [.acts [.enter (.visible y)], .line (.visible y)]) ++ [.acts
    [.enter .postRender, .runCpu (FrameTime.ofDot Line.postRender 0), .enter .vblank,
      .runCpu (FrameTime.ofDot Line.vblank 1), .beginVblank]] ++ .acts [.answerNmi] ::
        blankingStages, ?_⟩
  rw [frameStages, pictureStages, screenStages, hlines, fourLines]
  simp

/-- Before the fifth line, no run goes past its head. -/
theorem until_fourLines {console : Console ℚ Nrom SilentApu Unplugged} {a : FrameAct ℚ}
    (h : a ∈ console.schedule fourLines) : a.Until (FrameTime.ofDot 3 328) := by
  obtain ⟨stage, hstage, rendering, hmem⟩ := mem_schedule h
  simp only [fourLines, List.mem_append, List.mem_flatMap, List.mem_cons, List.not_mem_nil,
    or_false] at hstage
  obtain ⟨y, hy, rfl | rfl⟩ | rfl := hstage
  · rw [List.mem_singleton.mp hmem]
    trivial
  · refine Line.until_of_mem (FrameTime.ofDot_le_ofDot ?_) hmem
    have hlt : y.val < 4 := by
      obtain ⟨i, hi, rfl⟩ := List.mem_take_iff_getElem.mp hy
      simp at hi ⊢
      omega
    simp only [Line.number]
    omega
  · rw [List.mem_singleton.mp hmem]
    trivial

/-- The program at the head of the fifth line. -/
def veilingAtHead : Console ℚ Nrom SilentApu Unplugged :=
  veiling.performAll (veiling.schedule fourLines)

/-- Before the fifth line the program has begun its transfer. -/
theorem lt_cycle_veilingAtHead : 13 < veilingAtHead.cpu.cycle := by
  have hstage : Stage.line (.visible 3) ∈ fourLines := by
    refine List.mem_append_left _ (List.mem_flatMap.mpr ⟨3, ?_, by simp⟩)
    exact List.mem_take_iff_getElem.mpr ⟨3, by simp, by simp⟩
  have hthird : .runCpu (FrameTime.ofDot 3 0) ∈ veiling.schedule fourLines :=
    mem_schedule_of_mem _ hstage fun _ => List.mem_flatMap.mpr
      ⟨⟨0, .clearSecondaryOam⟩, List.mem_cons_self .., List.mem_cons_self ..⟩
  have hopen : .close ∉ veiling.schedule fourLines := fun hclose => until_fourLines hclose
  have hpast := lt_cycle_performAll veiling hopen hthird
  have hoffset : veiling.cpu.cycleOffset = 0 := runsVeiling_veiling.cycleOffset
  rw [hoffset, FrameTime.ofDot_exact] at hpast
  have hcycle : (13 : ℚ) < veilingAtHead.cpu.cycle := by
    refine lt_trans ?_ hpast
    norm_num
  exact_mod_cast hcycle

/-- At the head of the fifth line the layers are shown, and the processor is about to hide them. -/
theorem runsVeiling_veilingAtHead :
    RunsVeiling veilingAtHead.cpu veilingAtHead.bus ∧ veilingAtHead.cpu.cycle = 531 ∧
      veilingAtHead.bus.ppu.mask = ⟨0x18⟩ := by
  have hmost : (FrameTime.ofDot 3 328 : ℚ) < 531 := by
    rw [FrameTime.ofDot_exact]
    norm_num
  have hstart : veiling.cpu.cycle ≤ 531 := by
    have hcycle : veiling.cpu.cycle = 7 := rfl
    omega
  obtain ⟨hruns, hle⟩ : RunsVeiling veilingAtHead.cpu veilingAtHead.bus ∧
      veilingAtHead.cpu.cycle ≤ 531 :=
    performAll_induction
      (P := fun c : Console ℚ Nrom SilentApu Unplugged =>
        RunsVeiling c.cpu c.bus ∧ c.cpu.cycle ≤ 531)
      (fun a ha c hc => ⟨hc.1.act (until_fourLines ha),
        hc.1.cycle_act (until_fourLines ha) hmost hc.2⟩)
      ⟨runsVeiling_veiling, hstart⟩
  exact ⟨hruns, hruns.mask_of_le lt_cycle_veilingAtHead hle⟩

/-- In its first frame, the current address moves though rendering is off. -/
theorem not_movesWhileRendering_veiling :
    veiling.Reachable ∧ ¬ veiling.MovesWhileRendering := by
  refine ⟨.new _ _ _ _ _, fun hmoves => ?_⟩
  have hevent : ⟨232, .fetchColumn⟩ ∈ (Line.visible 4).events true := by
    refine List.mem_append_left _ (.tail _ (List.mem_flatMap.mpr ⟨29, List.mem_finRange _, ?_⟩))
    exact List.mem_map.mpr ⟨.fetchColumn, by simp [Line.tileSteps], rfl⟩
  obtain ⟨before, after, hevents⟩ := List.append_of_mem hevent
  obtain ⟨rest, hstages⟩ := frameStages_fourLines
  obtain ⟨hruns, -, hmask⟩ := runsVeiling_veilingAtHead
  have hline := veiling.prefix_line hstages
  have hrendering : veilingAtHead.bus.ppu.rendering = true := by
    rw [veilingAtHead, notesMask_performAll notesMask_veiling, ← veilingAtHead, hmask]
    rfl
  rw [← veilingAtHead, hrendering] at hline
  -- what the fifth line does before its fetch at dot 232, where the processor hides the layers
  let acts : List (FrameAct ℚ) :=
    before.flatMap (Line.visible 4).actsOf ++ [.runCpu (FrameTime.ofDot 4 232)]
  have hacts : acts ++ [.perform (.visible 4) ⟨232, .fetchColumn⟩] <+:
      (Line.visible 4).acts true := by
    rw [Line.acts, hevents, List.flatMap_append, List.flatMap_cons]
    simp only [acts, List.append_assoc, List.prefix_append_right_inj]
    exact List.prefix_append _ _
  have huntil (a : FrameAct ℚ) (ha : a ∈ acts) : a.Until (FrameTime.ofDot 4 328) :=
    Line.until_of_mem (le_refl _) (hacts.subset (List.mem_append_left _ ha))
  have hlate : (531 : ℚ) ≤ FrameTime.ofDot 4 232 := by
    rw [FrameTime.ofDot_exact]
    norm_num
  have hhidden := hruns.mask_performAll huntil (List.mem_concat_self ..) hlate
  have hprefix : veiling.schedule fourLines ++ acts ++
      [.perform (.visible 4) ⟨232, .fetchColumn⟩] <+: veiling.frameActs := by
    rw [List.append_assoc]
    exact (List.prefix_append_right_inj _ |>.mpr hacts).trans hline
  have hon := hmoves _ _ _ hprefix rfl
  rw [notesMask_performAll notesMask_veiling, performAll_append, ← veilingAtHead, hhidden] at hon
  cases hon

end Console

end Famicom
