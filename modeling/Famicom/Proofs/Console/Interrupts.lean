import Famicom.Proofs.Bus.Cells
import Famicom.Proofs.Console.Drift
import Famicom.Proofs.Console.Moments
import Famicom.Proofs.Cpu.Program

/-!
# No interrupt is lost

The interrupt of vertical blanking is kept in a single bit, which is raised in two places and taken
in two. It is raised only while vertical blanking lasts, and between two of those the processor
begins thousands of rounds, so the bit has always been taken when the next one begins.

* `Signal.Agrees.performAll`: all acts but the beginning of vertical blanking keep to the order of
  moments.
* `Console.halted_of_pending`: only on a halted processor is the bit set at that beginning.
* `Console.interrupts_answered`: from power-on on, every interrupt raised is answered, and at once.
-/

namespace Famicom

open SystemBus

/-! ## Acts -/

section

variable {T C A D : Type} [Cartridge C] [Apu A] [Controller D]

/-- The processor answers the interrupt of vertical blanking and raises none. -/
theorem Watch.clear_answerNmi (cpu : Cpu T) (bus : Bus C A D) :
    Clear bus.ppu.status.vblank (cpu.answerNmi (start bus)).2 := by
  have htaken := clear_takeNmi bus
  unfold Cpu.answerNmi
  dsimp only
  split
  · exact passive_clear.nmi htaken cpu
  · exact htaken

namespace Signal.Agrees

variable {s : Signal}

theorem answerNmi {bus : Bus C A D} (h : s.Agrees bus.ppu) {cpu : Cpu T}
    (hrunning : cpu.jammed = false) :
    ∃ s', s.follow? (cpu.answerMoments bus) = some s' ∧
      s'.Agrees (cpu.answerNmi bus).2.ppu := by
  obtain ⟨hraises, hpending, hflag⟩ := Watch.clear_answerNmi cpu bus
  have hbus : (cpu.answerNmi bus).2 = (cpu.answerNmi (Watch.start bus)).2.bus :=
    congrArg (·.2) (Watch.busMap_bus.answerNmi cpu (Watch.start bus))
  rw [hbus]
  refine ⟨{ s with pending := false }, ?_, hpending.symm, fun hv => h.blanking (hflag hv)⟩
  rw [Cpu.answerMoments_of_running hrunning, hraises]
  obtain ⟨pending, blanking⟩ := s
  have htaken : (takeNmi bus).1 = pending := h.pending.symm
  rw [htaken]
  cases pending <;> rfl

/-- The moments of a run are in order, and the observer knows the interrupt after it. -/
theorem runThrough {bus : Bus C A D} (h : s.Agrees bus.ppu) (cpu : Cpu T) (last : Nat) :
    ∃ s', s.follow? (cpu.momentsThrough bus last) = some s' ∧
      s'.Agrees (cpu.runThrough bus last).2.ppu := by
  fun_induction Cpu.momentsThrough cpu bus last generalizing s with
  | case1 cpu bus hle next =>
    rename_i ih
    obtain ⟨mid, hmid, hround⟩ := h.round cpu
    obtain ⟨s', hs', hrest⟩ := ih hround
    rw [Cpu.runThrough, dif_pos hle, follow?_append, hmid]
    exact ⟨s', hs', hrest⟩
  | case2 cpu bus hlt =>
    rw [Cpu.runThrough, dif_neg hlt]
    exact ⟨s, rfl, h⟩

variable [Time T]

theorem runTo {bus : Bus C A D} (h : s.Agrees bus.ppu) (cpu : Cpu T) (limit : T) :
    ∃ s', s.follow? (cpu.moments bus limit) = some s' ∧
      s'.Agrees (cpu.runTo bus limit).2.ppu := by
  unfold Cpu.moments Cpu.runTo
  cases cpu.lastStart? limit with
  | none => exact ⟨s, rfl, h⟩
  | some last => exact h.runThrough cpu last

variable {console : Console T C A D}

/-- The moments of an act are in order, if no interrupt is pending when vertical blanking begins. -/
theorem act (h : s.Agrees console.bus.ppu) (hrunning : console.cpu.jammed = false)
    {a : FrameAct T} (ha : a = .beginVblank → s.pending = false) :
    ∃ s', s.follow? (console.momentsOf a) = some s' ∧ s'.Agrees (console.act a).bus.ppu := by
  cases a with
  | runCpu limit => exact h.runTo console.cpu limit
  | perform line event =>
    have hsame := event.step.run_settings_eq console.bus.ppu console.bus.cartridge
    exact ⟨s, rfl, h.pending.trans hsame.nmiPending.symm,
      fun hv => h.blanking (hsame.vblank.symm.trans hv)⟩
  | beginVblank =>
    have hclear := ha rfl
    refine ⟨⟨console.bus.ppu.control.nmiEnabled, true⟩, ?_, ?_, fun _ => rfl⟩
    · unfold Console.momentsOf
      obtain ⟨pending, blanking⟩ := s
      cases hclear
      cases console.bus.ppu.control.nmiEnabled <;> rfl
    · show _ = (console.bus.ppu.nmiPending || console.bus.ppu.control.nmiEnabled)
      rw [← h.pending, hclear]
      rfl
  | answerNmi => exact h.answerNmi hrunning
  | endVblank => exact ⟨{ s with blanking := false }, rfl, h.pending, nofun⟩
  | _ => exact ⟨s, rfl, h⟩

/-- As long as vertical blanking does not begin, a running processor keeps to the order. -/
theorem performAll {acts : List (FrameAct T)} (hacts : .beginVblank ∉ acts)
    (h : s.Agrees console.bus.ppu) (hrunning : (console.performAll acts).cpu.jammed = false) :
    ∃ s', s.follow? (console.moments acts) = some s' ∧
      s'.Agrees (console.performAll acts).bus.ppu := by
  induction acts generalizing console s with
  | nil => exact ⟨s, rfl, h⟩
  | cons a acts ih =>
    obtain ⟨hne, hrest⟩ := List.ne_and_not_mem_of_not_mem_cons hacts
    have hnow : console.cpu.jammed = false := by
      by_contra hjammed
      have hlater := Console.jammed_performAll (Bool.of_not_eq_false hjammed) (a :: acts)
      exact absurd (hlater.symm.trans hrunning) nofun
    obtain ⟨mid, hmid, hact⟩ := h.act hnow fun heq => absurd heq.symm hne
    obtain ⟨s', hs', hlast⟩ := ih hrest hact hrunning
    refine ⟨s', ?_, hlast⟩
    rw [Console.moments, follow?_append, hmid]
    exact hs'

end Signal.Agrees

/-! ## Outside vertical blanking -/

/-- Rounds that begin with the flag of vertical blanking down leave it down, and leave no interrupt
pending but on a halted processor. -/
theorem Cpu.quiet_rounds (cpu : Cpu T) {bus : Bus C A D}
    (hflag : bus.ppu.status.vblank = false) (n : Nat) :
    (cpu.rounds bus n).2.ppu.status.vblank = false ∧
      ((cpu.rounds bus n).2.ppu.nmiPending = true →
        n = 0 ∨ (cpu.rounds bus n).1.jammed = true) := by
  induction n with
  | zero => exact ⟨hflag, fun _ => .inl rfl⟩
  | succ n ih =>
    have hdown := ih.1
    rw [rounds_succ]
    generalize cpu.rounds bus n = reached at hdown
    by_cases hjammed : reached.1.jammed = true
    · rw [advance_of_jammed hjammed]
      exact ⟨hdown, fun _ => .inr hjammed⟩
    · obtain ⟨-, -, -, hup⟩ := round_atMostOnce (Bool.of_not_eq_true hjammed) reached.2
      rw [hdown] at hup
      refine ⟨?_, fun hpending => ?_⟩
      · exact Bool.eq_false_iff.mpr fun hv => Bool.false_ne_true (hup (.inr hv))
      · cases hup (.inl hpending)

namespace Console

variable [Time T]

/-- Vertical blanking is over, and unless the processor is halted, no interrupt has been pending
since a round was made after cycle `started`. -/
structure Quiet (started : Nat) (console : Console T C A D) : Prop where
  flag : console.bus.ppu.status.vblank = false
  pending : console.bus.ppu.nmiPending = true →
    console.cpu.totalCycles = started ∨ console.cpu.jammed = true

/-- It stays so until vertical blanking begins. -/
theorem Quiet.act {console : Console T C A D} {started : Nat} (h : console.Quiet started)
    {a : FrameAct T} (ha : a ≠ .beginVblank) : (console.act a).Quiet started := by
  cases a with
  | runCpu limit =>
    obtain ⟨n, hrun, -, -⟩ := console.cpu.runTo_eq_rounds console.bus limit
    have hrounds := console.cpu.quiet_rounds h.flag n
    rw [← hrun] at hrounds
    refine ⟨hrounds.1, fun hpending => ?_⟩
    rcases hrounds.2 hpending with rfl | hjammed
    · have hstay : console.cpu.runTo console.bus limit = (console.cpu, console.bus) := hrun
      have hact : console.act (.runCpu limit) = console := by
        show console.runCpu limit = console
        rw [runCpu, hstay]
      rw [hact] at hpending ⊢
      exact h.pending hpending
    · exact .inr hjammed
  | perform line event =>
    have hsame := event.step.run_settings_eq console.bus.ppu console.bus.cartridge
    exact ⟨hsame.vblank.trans h.flag, fun hv => h.pending (hsame.nmiPending.symm.trans hv)⟩
  | beginVblank => exact absurd rfl ha
  | answerNmi =>
    obtain ⟨-, hpending, hflag⟩ := Watch.clear_answerNmi console.cpu console.bus
    have hbus : (console.act .answerNmi).bus =
        (console.cpu.answerNmi (Watch.start console.bus)).2.bus :=
      congrArg (·.2) (Watch.busMap_bus.answerNmi console.cpu (Watch.start console.bus))
    rw [← hbus] at hpending hflag
    rw [h.flag] at hflag
    refine ⟨Bool.eq_false_iff.mpr fun hv => Bool.false_ne_true (hflag hv), fun hv => ?_⟩
    cases hpending.symm.trans hv
  | endVblank => exact ⟨rfl, h.pending⟩
  | _ => exact ⟨h.flag, h.pending⟩

theorem Quiet.performAll {console : Console T C A D} {started : Nat} (h : console.Quiet started)
    {acts : List (FrameAct T)} (hacts : .beginVblank ∉ acts) :
    (console.performAll acts).Quiet started :=
  performAll_induction (P := Quiet started) (fun _ ha _ hc => hc.act fun heq => hacts (heq ▸ ha)) h

/-- The acts of a frame before vertical blanking begins. -/
def actsToVblank (console : Console T C A D) : List (FrameAct T) :=
  console.schedule screenStages ++
    [.enter .postRender, .runCpu (FrameTime.ofDot Line.postRender 0), .enter .vblank,
      .runCpu (FrameTime.ofDot Line.vblank 1)]

theorem beginVblank_notMem_acts (line : Line) (rendering : Bool) :
    (.beginVblank : FrameAct T) ∉ line.acts rendering := by
  simp [Line.acts, Line.actsOf]

theorem schedule_pictureStages (console : Console T C A D) :
    console.schedule pictureStages = console.actsToVblank ++ [.beginVblank] := by
  rw [pictureStages, schedule_append, actsToVblank]
  simp only [schedule, Stage.unfold, List.append_assoc, List.cons_append, List.nil_append]

/-- Vertical blanking begins once in a frame, and ends after that. -/
theorem frameActs_vblank (console : Console T C A D) :
    .beginVblank ∉ console.actsToVblank ∧
      ∃ rest, .beginVblank ∉ rest ∧
        console.frameActs = console.actsToVblank ++ .beginVblank :: .answerNmi ::
          .enter .preRender :: .runCpu (FrameTime.ofDot Line.preRender.number 1) :: .endVblank ::
            rest := by
  constructor
  · simp only [actsToVblank, List.mem_append, List.mem_cons, reduceCtorEq, List.not_mem_nil,
      or_false]
    intro h
    obtain ⟨stage, hstage, rendering, hmem⟩ := mem_schedule h
    simp only [screenStages, List.mem_flatMap, List.mem_cons, List.not_mem_nil, or_false] at hstage
    obtain ⟨y, -, rfl | rfl⟩ := hstage
    · simp [Stage.unfold] at hmem
    · exact beginVblank_notMem_acts _ _ hmem
  · refine ⟨Line.preRender.acts console.preRenderHead.bus.ppu.rendering ++
      [.runCpu FrameTime.frameCycles, .close], ?_, ?_⟩
    rotate_left
    · rw [frameActs_eq, earlyStages, pictureStages, schedule_append, schedule_append, actsToVblank]
      simp only [schedule, Stage.unfold, List.append_assoc, List.cons_append, List.nil_append]
    · simp [beginVblank_notMem_acts]

end Console

end

/-! ## Frames -/

namespace Console

variable {C A D : Type} [Cartridge C] [Apu A] [Controller D] {console : Console ℚ C A D}

/-- The processor has made a round in every frame before vertical blanking begins. -/
theorem lt_totalCycles_actsToVblank {due : ℚ} (h : console.Timely due 0) :
    (console.cpu.totalCycles : ℚ) < (console.performAll console.actsToVblank).cpu.totalCycles := by
  obtain ⟨-, rest, -, hframe⟩ := console.frameActs_vblank
  let earlier := console.schedule screenStages ++
    [.enter .postRender, .runCpu (FrameTime.ofDot Line.postRender 0), .enter .vblank]
  have hacts : console.actsToVblank = earlier ++ [.runCpu (FrameTime.ofDot Line.vblank 1)] := by
    simp [actsToVblank, earlier]
  have hprefix : earlier ++ [.runCpu (FrameTime.ofDot Line.vblank 1)] <+: console.frameActs := by
    rw [← hacts, hframe]
    exact List.prefix_append _ _
  have hlate := (onSchedule_performAll h.onSchedule hprefix).lt_totalCycles_runTo
    (console.performAll earlier).bus (FrameTime.ofDot Line.vblank 1)
  have hstart := h.totalCycles_le
  have hdot : (529 : ℚ) < FrameTime.ofDot Line.vblank 1 := by
    rw [FrameTime.ofDot_exact]
    norm_num [Line.vblank]
  rw [hacts, performAll_append]
  refine lt_trans ?_ hlate
  linarith

/-- Only on a halted processor is the interrupt pending when vertical blanking begins. -/
theorem halted_of_pending {due : ℚ} (h : console.Timely due 0)
    (hflag : console.bus.ppu.status.vblank = false)
    (hpending : (console.performAll console.actsToVblank).bus.ppu.nmiPending = true) :
    (console.performAll console.actsToVblank).cpu.jammed = true := by
  have hquiet : console.Quiet console.cpu.totalCycles := ⟨hflag, fun _ => .inl rfl⟩
  have hlate := lt_totalCycles_actsToVblank h
  rcases (hquiet.performAll console.frameActs_vblank.1).pending hpending with hsame | hjammed
  · rw [hsame] at hlate
    exact absurd hlate (lt_irrefl _)
  · exact hjammed

theorem jammed_runUnpainted (h : console.cpu.jammed = true) :
    console.runUnpainted.cpu.jammed = true := by
  rw [runUnpainted_eq]
  exact jammed_performAll h _

/-- Over a frame, a running processor keeps to the order of moments. -/
theorem follow_runUnpainted {s : Signal} {due : ℚ} (h : s.Agrees console.bus.ppu)
    (htimely : console.Timely due 0) (hflag : console.bus.ppu.status.vblank = false)
    (hrunning : console.runUnpainted.cpu.jammed = false) :
    (∃ s', s.follow? (console.moments console.frameActs) = some s' ∧
        s'.Agrees console.runUnpainted.bus.ppu) ∧
      console.runUnpainted.bus.ppu.status.vblank = false := by
  obtain ⟨hbefore, rest, hrest, hframe⟩ := console.frameActs_vblank
  have hhalted := halted_of_pending htimely hflag
  rw [runUnpainted_eq, hframe, performAll_append, performAll_cons] at hrunning ⊢
  rw [moments_append, moments, Signal.follow?_append]
  have hstays {c : Console ℚ C A D} {l : List (FrameAct ℚ)}
      (hlast : (c.performAll l).cpu.jammed = false) : c.cpu.jammed = false :=
    Bool.eq_false_iff.mpr fun hjammed => Bool.false_ne_true
      (hlast.symm.trans (jammed_performAll hjammed l))
  have hhere : (console.performAll console.actsToVblank).cpu.jammed = false :=
    hstays (l := [.beginVblank]) (hstays hrunning)
  obtain ⟨mid, hmid, hagrees⟩ := h.performAll hbefore hhere
  generalize console.performAll console.actsToVblank = reached at hrunning hhere hhalted hagrees ⊢
  have hclear : mid.pending = false := by
    refine hagrees.pending.trans (Bool.eq_false_iff.mpr fun hpending => ?_)
    exact Bool.false_ne_true (hhere.symm.trans (hhalted hpending))
  obtain ⟨begun, hbegun, hagrees⟩ := hagrees.act hhere (a := .beginVblank) fun _ => hclear
  constructor
  · obtain ⟨s', hs', hagrees⟩ := hagrees.performAll (by simpa using hrest) hrunning
    refine ⟨s', ?_, hagrees⟩
    rw [hmid, Option.bind_some, Signal.follow?_append, hbegun]
    exact hs'
  · simp only [performAll_cons]
    exact (Quiet.performAll ⟨rfl, fun _ => .inl rfl⟩ hrest).flag

/-- Over frames, a running processor keeps to the order of moments. -/
theorem follow_runCalls {S : Type} [VideoSink S] {s : Signal} {due : ℚ}
    (h : s.Agrees console.bus.ppu) (htimely : console.Timely due 0)
    (hflag : console.bus.ppu.status.vblank = false) (sink : S) (calls : List FrameCall)
    (hrunning : (console.runCalls sink calls).1.cpu.jammed = false) :
    ∃ s', s.follow? (console.callMoments sink calls) = some s' ∧
      s'.Agrees (console.runCalls sink calls).1.bus.ppu := by
  induction calls generalizing console sink s due with
  | nil => exact ⟨s, rfl, h⟩
  | cons call calls ih =>
    rw [runCalls] at hrunning ⊢
    rw [callMoments, Signal.follow?_append]
    rw [runCall_fst] at hrunning ⊢
    have hframe : console.runUnpainted.cpu.jammed = false := by
      refine Bool.eq_false_iff.mpr fun hjammed => Bool.false_ne_true (hrunning.symm.trans ?_)
      exact runCalls_induction (P := fun _ c => c.cpu.jammed = true)
        (fun _ _ h => jammed_runUnpainted h) (n := 0) hjammed _ calls
    obtain ⟨⟨mid, hmid, hagrees⟩, hdown⟩ := follow_runUnpainted h htimely hflag hframe
    rw [hmid]
    exact ih hagrees (timely_runUnpainted htimely).1 hdown _ hrunning

/-- At power-on no interrupt is pending, and vertical blanking is not on. -/
theorem powerOn_quiet (console : Console ℚ C A D) :
    console.powerOn.bus.ppu.nmiPending = false ∧
      console.powerOn.bus.ppu.status.vblank = false := by
  let start := console.bus.powerOn console.config.timing.standard
  let low := (start.read Interrupt.resetVector).2
  have hfirst := start.read_steering Interrupt.resetVector
  have hsecond := low.read_steering (Interrupt.resetVector + 1)
  refine ⟨hsecond.nmiPending.trans hfirst.nmiPending, Bool.eq_false_iff.mpr fun hv => ?_⟩
  cases hfirst.vblank (hsecond.vblank hv)

/-- Interrupts are neither lost nor doubled, whatever frames a host asks for from power-on on, as
long as the processor is not halted. -/
theorem interrupts_answered {S : Type} [VideoSink S] (console : Console ℚ C A D) (sink : S)
    (calls : List FrameCall)
    (hrunning : (console.powerOn.runCalls sink calls).1.cpu.jammed = false) :
    Answered (console.powerOn.callMoments sink calls)
      (console.powerOn.runCalls sink calls).1.bus.ppu.nmiPending := by
  obtain ⟨hclear, hflag⟩ := console.powerOn_quiet
  have hstart : Signal.Agrees ⟨false, false⟩ console.powerOn.bus.ppu :=
    ⟨hclear.symm, fun hv => absurd (hflag.symm.trans hv) Bool.false_ne_true⟩
  obtain ⟨s, hs, hagrees⟩ :=
    follow_runCalls hstart console.timely_powerOn.1 hflag sink calls hrunning
  rw [← hagrees.pending]
  exact Signal.answered hs

end Console

/-! ## A processor that never halts -/

/-- The processor runs, and starts anew where another one halts. -/
structure Cpu.Restarts {T : Type} (cpu : Cpu T) : Prop where
  jamBehavior : cpu.jamBehavior = .reset
  jammed : cpu.jammed = false

namespace Cpu.Restarts

variable {T B : Type} [SystemBus B] {cpu : Cpu T}

theorem poll (h : cpu.Restarts) (bus : B) : (cpu.poll bus).1.Restarts := by
  rcases poll_cases h.jammed bus with ⟨-, -, hpoll⟩ | ⟨-, -, hpoll⟩ | ⟨-, -, hpoll⟩
  · rw [hpoll]
    exact ⟨h.jamBehavior, h.jammed⟩
  · rw [hpoll]
    unfold irq
    split <;> exact ⟨h.jamBehavior, h.jammed⟩
  · rw [hpoll]
    exact h

theorem jam (h : cpu.Restarts) (bus : B) : (cpu.jam bus).2.1.Restarts := by
  unfold Cpu.jam
  split
  · exact ⟨h.jamBehavior, h.jammed⟩
  · next hhalt => cases h.jamBehavior.symm.trans hhalt

theorem step (h : cpu.Restarts) (bus : B) : (cpu.step bus).2.1.Restarts := by
  unfold Cpu.step
  dsimp only
  split
  · exact ⟨h.jamBehavior, h.jammed⟩
  split
  · apply jam
    exact ⟨h.jamBehavior, h.jammed⟩
  · unfold perform serveTransfer
    dsimp only
    split <;> exact ⟨h.jamBehavior, h.jammed⟩

theorem rounds (h : cpu.Restarts) (bus : B) (n : Nat) : (cpu.rounds bus n).1.Restarts := by
  induction n with
  | zero => exact h
  | succ n ih =>
    rw [rounds_succ]
    exact (ih.poll _).step _

end Cpu.Restarts

namespace Console

variable {T C A D : Type} [Time T] [Cartridge C] [Apu A] [Controller D]

theorem restarts_act {console : Console T C A D} (h : console.cpu.Restarts) (a : FrameAct T) :
    (console.act a).cpu.Restarts := by
  cases a with
  | runCpu limit =>
    obtain ⟨n, hrun, -, -⟩ := console.cpu.runTo_eq_rounds console.bus limit
    show (console.cpu.runTo console.bus limit).1.Restarts
    rw [hrun]
    exact h.rounds console.bus n
  | answerNmi =>
    show (console.cpu.answerNmi console.bus).1.Restarts
    unfold Cpu.answerNmi
    dsimp only
    split <;> exact ⟨h.jamBehavior, h.jammed⟩
  | _ => exact ⟨h.jamBehavior, h.jammed⟩

/-- A console whose processor starts anew is never halted. -/
theorem restarts_runCalls {S : Type} [VideoSink S] {console : Console T C A D}
    (h : console.cpu.Restarts) (sink : S) (calls : List FrameCall) :
    (console.runCalls sink calls).1.cpu.Restarts := by
  refine runCalls_induction (P := fun _ c => c.cpu.Restarts) (fun _ c hc => ?_) (n := 0) h sink
    calls
  rw [runUnpainted_eq]
  exact performAll_induction (P := fun c => c.cpu.Restarts)
    (fun a _ c hc => restarts_act hc a) hc

/-- A console as a host gets it, with a board without a program. -/
def bare : Console ℚ Nrom SilentApu Unplugged :=
  .new (.new #[] #[] .vertical) .new ⟨⟩ ⟨⟩ .default

end Console

/-! ## A program that is interrupted twice in one vertical blanking -/

/-- The program allows the interrupt and waits for it. The handler forbids it and allows it anew,
which raises it once more; the second time the handler finds `$80` in both registers. -/
def rearmingProgram : Array UInt8 :=
  #[
    -- LDA #$80, STA $2000, $8005: JMP $8005
    0xA9, 0x80, 0x8D, 0x00, 0x20, 0x4C, 0x05, 0x80,
    -- $8008: STX $2000, LDX #$80, STA $2000, $8010: JMP $8010
    0x8E, 0x00, 0x20, 0xA2, 0x80, 0x8D, 0x00, 0x20, 0x4C, 0x10, 0x80,
    0xEA, 0xEA, 0xEA, 0xEA, 0xEA, 0xEA, 0xEA,
    -- the address of the handler and the start address
    0x08, 0x80, 0x00, 0x80,
    0xEA, 0xEA]

/-- Where the program is between two rounds before vertical blanking. -/
inductive Arming (cpu : Cpu ℚ) (control : Control) : Prop where
  | load (pc : cpu.registers.pc = 0x8000) (cycle : cpu.cycle = 7)
  | store (pc : cpu.registers.pc = 0x8002) (cycle : cpu.cycle = 9) (a : cpu.registers.a = 0x80)
  | wait (pc : cpu.registers.pc = 0x8005) (a : cpu.registers.a = 0x80) (armed : control = ⟨0x80⟩)

/-- The program runs, and vertical blanking has not begun. -/
structure RunsArming (cpu : Cpu ℚ) (bus : Bus Nrom SilentApu Unplugged) : Prop
    extends Executes rearmingProgram cpu bus where
  vblank : bus.ppu.status.vblank = false
  x : cpu.registers.x = 0
  place : Arming cpu bus.ppu.control

/-- In vertical blanking, the handler has come to `pc`. -/
structure RunsHandler (pc : UInt16) (control : Control) (cpu : Cpu ℚ)
    (bus : Bus Nrom SilentApu Unplugged) : Prop extends Executes rearmingProgram cpu bus where
  vblank : bus.ppu.status.vblank = true
  pc : cpu.registers.pc = pc
  a : cpu.registers.a = 0x80
  control : bus.ppu.control = control

/-- What happens in the first round of a run, and in the others. -/
theorem Cpu.moments_of_due {T C A D : Type} [Time T] [Cartridge C] [Apu A] [Controller D]
    {cpu : Cpu T} {bus : Bus C A D} {limit : T} (h : cpu.Due limit) :
    cpu.moments bus limit =
      cpu.roundMoments bus ++ (cpu.advance bus).1.moments (cpu.advance bus).2 limit := by
  obtain ⟨last, hlast, hle⟩ := h
  obtain ⟨_, -, -, he⟩ := elapsed_advance cpu bus
  have hlater : (cpu.advance bus).1.lastStart? limit = some last := by
    rw [← hlast, lastStart?, lastStart?, he.cycleOffset]
  unfold moments
  rw [hlast, hlater]
  dsimp only
  rw [momentsThrough, dif_pos hle]

/-- A round of a program that runs undisturbed: an instruction, and the interrupt that it may
raise. -/
theorem Executes.roundMoments {T D : Type} [Controller D] {image : Array UInt8} {cpu : Cpu T}
    {bus : Bus Nrom SilentApu D} (h : Executes image cpu bus) :
    cpu.roundMoments bus =
      .instruction :: .replicate (cpu.advance bus).2.ppu.nmiPending.toNat .raise := by
  have hquiet : cpu.pollMoments bus = [] := Cpu.pollMoments_of_quiet h.jammed h.nmiPending rfl
  obtain ⟨raises, hmoments, hraises, -⟩ := Cpu.round_atMostOnce h.jammed bus
  rw [hmoments, hquiet, hraises, List.nil_append]

/-- The non-maskable interrupt leads a program to its handler; but for the stack, it leaves the bus
alone. -/
theorem Executes.nmi_eq {T D : Type} [Controller D] {image : Array UInt8} {cpu : Cpu T}
    {bus : Bus Nrom SilentApu D} (h : Executes image cpu bus) {lo hi : UInt8}
    (hlo : (Rom.ofImage image).load (Interrupt.nmiVector - 0x8000).toNat = lo)
    (hhi : (Rom.ofImage image).load (Interrupt.nmiVector + 1 - 0x8000).toNat = hi) :
    ∃ ram, cpu.nmi bus =
      ({ cpu with
          registers :=
            { cpu.registers with
              sp := cpu.registers.sp - 1 - 1 - 1
              pc := Word.ofBytes lo hi
              p.interruptDisable := true }
          cycle := cpu.cycle + 7
          totalCycles := cpu.totalCycles + 7 }, clock { bus with ram } 7) := by
  unfold Cpu.nmi Cpu.runSequence Registers.interrupt Registers.pushWord readWord
  simp only [Bus.push_eq]
  rw [Bus.read_program _ (by decide), Bus.read_program _ (by decide)]
  dsimp only
  rw [h.program, hlo, hhi]
  exact ⟨_, rfl⟩

namespace RunsArming

variable {cpu : Cpu ℚ} {bus : Bus Nrom SilentApu Unplugged}

theorem advance (h : RunsArming cpu bus) : RunsArming (cpu.advance bus).1 (cpu.advance bus).2 := by
  have hnone : bus.dmaPage = none := h.dmaPage
  cases h.place with
  | load pc cycle =>
    rw [h.advance_immediate pc (by decide) (by decide) rfl rfl rfl (by decide) rfl]
    exact ⟨⟨h.program, h.jammed, hnone, h.nmiPending⟩, h.vblank, h.x,
      .store rfl (congrArg (· + 2) cycle) rfl⟩
  | store pc cycle a =>
    rw [h.advance_absolute pc (by decide) (by decide) (by decide) rfl rfl rfl rfl (by decide)
      (fun _ _ => rfl) rfl, Executes.serveTransfer_of_none _ (by exact hnone)]
    -- outside vertical blanking, allowing the interrupt does not raise it
    have hpending : (bus.ppu.nmiPending || (!bus.ppu.control.nmiEnabled &&
        Control.nmiEnabled ⟨cpu.registers.a⟩ && bus.ppu.status.vblank)) = false := by
      rw [h.vblank, h.nmiPending, Bool.and_false, Bool.or_false]
    exact ⟨⟨h.program, h.jammed, hnone, hpending⟩, h.vblank, h.x,
      .wait rfl a (congrArg Control.mk a)⟩
  | wait pc a armed =>
    rw [h.advance_absolute pc (by decide) (by decide) (by decide) rfl rfl rfl rfl (by decide)
      (fun _ _ => rfl) rfl, Executes.serveTransfer_of_none _ (by exact hnone)]
    exact ⟨⟨h.program, h.jammed, hnone, h.nmiPending⟩, h.vblank, h.x, .wait rfl a armed⟩

/-- An act before vertical blanking does not disturb the program. -/
theorem act {console : Console ℚ Nrom SilentApu Unplugged} {most : ℚ} {a : FrameAct ℚ}
    (h : RunsArming console.cpu console.bus) (ha : a.Until most) (hnot : a ≠ .beginVblank) :
    RunsArming (console.act a).cpu (console.act a).bus := by
  cases a with
  | runCpu limit =>
    exact Cpu.runTo_induction (P := RunsArming) (fun _ _ hp _ => hp.advance) h
  | perform line event =>
    have hsame := event.step.run_settings_eq console.bus.ppu console.bus.cartridge
    exact ⟨h.toExecutes.perform event.step, hsame.vblank.trans h.vblank, h.x,
      hsame.control ▸ h.place⟩
  | beginVblank => exact absurd rfl hnot
  | endVblank => exact ⟨h.toExecutes.endVblank, rfl, h.x, h.place⟩
  | answerNmi => exact ha.elim
  | close => exact ha.elim
  | enter phase => exact h

/-- When vertical blanking begins, the interrupt leads to the handler. -/
theorem answerNmi {console : Console ℚ Nrom SilentApu Unplugged}
    (h : RunsArming console.cpu console.bus) (hlate : 9 < console.cpu.cycle) :
    let begun := console.act .beginVblank
    console.momentsOf .beginVblank ++ begun.momentsOf .answerNmi = [.vblankBegins, .raise, .nmi] ∧
      RunsHandler 0x8008 ⟨0x80⟩ (begun.act .answerNmi).cpu (begun.act .answerNmi).bus ∧
      (begun.act .answerNmi).cpu.registers.x = 0 ∧
      (begun.act .answerNmi).cpu.cycle = console.cpu.cycle + 7 ∧
      (begun.act .answerNmi).cpu.cycleOffset = console.cpu.cycleOffset := by
  obtain ⟨a, armed⟩ : console.cpu.registers.a = 0x80 ∧ console.bus.ppu.control = ⟨0x80⟩ := by
    cases h.place with
    | load _ cycle => omega
    | store _ cycle => omega
    | wait _ a armed => exact ⟨a, armed⟩
  intro begun
  have hpending : begun.bus.ppu.nmiPending = true := by
    show (console.bus.ppu.nmiPending || console.bus.ppu.control.nmiEnabled) = true
    rw [armed, Bool.or_eq_true]
    exact .inr rfl
  have htaken : (takeNmi begun.bus).1 = true := hpending
  have hrunning : begun.cpu.jammed = false := h.jammed
  have hanswer : begun.cpu.answerNmi begun.bus = begun.cpu.nmi (takeNmi begun.bus).2 := by
    unfold Cpu.answerNmi
    dsimp only
    rw [htaken, hrunning]
    rfl
  have hexecutes : Executes rearmingProgram begun.cpu (takeNmi begun.bus).2 :=
    ⟨h.program, h.jammed, h.dmaPage, rfl⟩
  obtain ⟨ram, hnmi⟩ := hexecutes.nmi_eq rfl rfl
  have hact : begun.act .answerNmi =
      { begun with
        cpu := (begun.cpu.nmi (takeNmi begun.bus).2).1
        bus := (begun.cpu.nmi (takeNmi begun.bus).2).2 } := by
    rw [← hanswer]
    rfl
  refine ⟨?_, ?_⟩
  · have hraised : console.momentsOf .beginVblank = [.vblankBegins, .raise] := by
      rw [Console.momentsOf, armed]
      rfl
    rw [hraised, Console.momentsOf, Cpu.answerMoments_of_running hrunning, htaken,
      (Watch.clear_answerNmi begun.cpu begun.bus).1]
    rfl
  · rw [hact, hnmi]
    exact ⟨⟨⟨h.program, h.jammed, h.dmaPage, rfl⟩, rfl, rfl, a, armed⟩, h.x, rfl, rfl⟩

end RunsArming

namespace RunsHandler

variable {pc : UInt16} {control : Control} {cpu : Cpu ℚ} {bus : Bus Nrom SilentApu Unplugged}

/-- The handler forbids the interrupt, -/
theorem forbid (h : RunsHandler 0x8008 control cpu bus) (hx : cpu.registers.x = 0) :
    RunsHandler 0x800B ⟨0⟩ (cpu.advance bus).1 (cpu.advance bus).2 ∧
      (cpu.advance bus).1.cycle = cpu.cycle + 4 := by
  have hnone : bus.dmaPage = none := h.dmaPage
  rw [h.advance_absolute h.pc (by decide) (by decide) (by decide) rfl rfl rfl rfl (by decide)
    (fun _ _ => rfl) rfl, Executes.serveTransfer_of_none _ (by exact hnone)]
  have hpending : (bus.ppu.nmiPending || (!bus.ppu.control.nmiEnabled &&
      Control.nmiEnabled ⟨cpu.registers.x⟩ && bus.ppu.status.vblank)) = false := by
    rw [h.nmiPending, hx, Bool.false_or]
    exact congrArg (· && _) (Bool.and_false _)
  exact ⟨⟨⟨h.program, h.jammed, hnone, hpending⟩, h.vblank, rfl, h.a, congrArg Control.mk hx⟩, rfl⟩

/-- loads the other register, -/
theorem load (h : RunsHandler 0x800B control cpu bus) :
    RunsHandler 0x800D control (cpu.advance bus).1 (cpu.advance bus).2 ∧
      (cpu.advance bus).1.cycle = cpu.cycle + 2 := by
  rw [h.advance_immediate h.pc (by decide) (by decide) rfl rfl rfl (by decide) rfl]
  exact ⟨⟨⟨h.program, h.jammed, h.dmaPage, h.nmiPending⟩, h.vblank, rfl, h.a, h.control⟩, rfl⟩

/-- and allows the interrupt, which raises it. -/
theorem allow (h : RunsHandler 0x800D ⟨0⟩ cpu bus) :
    (cpu.advance bus).1.jammed = false ∧ (cpu.advance bus).2.ppu.nmiPending = true ∧
      (cpu.advance bus).1.cycle = cpu.cycle + 4 := by
  have hnone : bus.dmaPage = none := h.dmaPage
  rw [h.advance_absolute h.pc (by decide) (by decide) (by decide) rfl rfl rfl rfl (by decide)
    (fun _ _ => rfl) rfl, Executes.serveTransfer_of_none _ (by exact hnone)]
  have hpending : (bus.ppu.nmiPending || (!bus.ppu.control.nmiEnabled &&
      Control.nmiEnabled ⟨cpu.registers.a⟩ && bus.ppu.status.vblank)) = true := by
    rw [h.a, h.control, h.vblank]
    exact Bool.or_true _
  exact ⟨h.jammed, hpending, rfl⟩

/-- A run long enough for that goes on to answer the interrupt. -/
theorem moments (h : RunsHandler 0x8008 control cpu bus) (hx : cpu.registers.x = 0) {limit : ℚ}
    (hlimit : (cpu.cycle : ℚ) + 10 ≤ limit + cpu.cycleOffset) :
    [.instruction, .instruction, .instruction, .raise, .nmi] <+: cpu.moments bus limit := by
  have hoffset (cpu : Cpu ℚ) (bus : Bus Nrom SilentApu Unplugged) :
      (cpu.advance bus).1.cycleOffset = cpu.cycleOffset := by
    obtain ⟨_, -, -, he⟩ := Cpu.elapsed_advance cpu bus
    exact he.cycleOffset
  obtain ⟨hforbid, hfirst⟩ := h.forbid hx
  obtain ⟨hload, hsecond⟩ := hforbid.load
  obtain ⟨hrunning, hpending, hthird⟩ := hload.allow
  have hdue {later : Cpu ℚ} (hle : later.cycle ≤ cpu.cycle + 10)
      (hsame : later.cycleOffset = cpu.cycleOffset) : later.Due limit := by
    have hcast : (later.cycle : ℚ) ≤ cpu.cycle + 10 := by exact_mod_cast hle
    rw [Cpu.due_iff, hsame]
    linarith
  rw [Cpu.moments_of_due (hdue (by omega) rfl), h.roundMoments, hforbid.nmiPending,
    Cpu.moments_of_due (hdue (by omega) (hoffset _ _)), hforbid.roundMoments, hload.nmiPending,
    Cpu.moments_of_due (hdue (by omega) ((hoffset _ _).trans (hoffset _ _))), hload.roundMoments,
    hpending, Cpu.moments_of_due (hdue (by omega)
      ((hoffset _ _).trans ((hoffset _ _).trans (hoffset _ _)))),
    Cpu.roundMoments, Cpu.pollMoments_of_pending hrunning hpending]
  simp

end RunsHandler

/-- In the first frame, the interrupt is raised as vertical blanking begins, and by the handler. -/
theorem RunsArming.moments_frameActs {console : Console ℚ Nrom SilentApu Unplugged}
    (h : RunsArming console.cpu console.bus) (htimely : console.Timely 0 0) :
    [.vblankBegins, .raise, .nmi, .instruction, .instruction, .instruction, .raise, .nmi] <:+:
      console.moments console.frameActs := by
  obtain ⟨hbefore, rest, -, hframe⟩ := console.frameActs_vblank
  have huntil (a : FrameAct ℚ) (ha : a ∈ console.actsToVblank) :
      a.Until (FrameTime.ofDot Line.vblank 1) := by
    have hpicture : a ∈ console.schedule pictureStages := by
      rw [Console.schedule_pictureStages]
      exact List.mem_append_left _ ha
    exact Console.until_vblank hpicture
  have hruns : RunsArming (console.performAll console.actsToVblank).cpu
      (console.performAll console.actsToVblank).bus :=
    Console.performAll_induction
      (P := fun c : Console ℚ Nrom SilentApu Unplugged => RunsArming c.cpu c.bus)
      (fun a ha c hc => hc.act (huntil a ha) fun heq => hbefore (heq ▸ ha)) h
  have hpicture := Console.timely_picture htimely
  rw [Console.schedule_pictureStages, Console.performAll_append] at hpicture
  have hmem : .runCpu (FrameTime.ofDot Line.vblank 1) ∈ console.actsToVblank := by
    simp [Console.actsToVblank]
  have hpast := console.lt_cycle_performAll (fun hclose => huntil _ hclose) hmem
  rw [hframe, Console.moments_append]
  generalize console.performAll console.actsToVblank = reached at hruns hpicture hpast ⊢
  -- the interrupt comes between the dots at which vertical blanking begins and ends
  have hstart : console.cpu.cycleOffset = 0 :=
    htimely.onSchedule.cycleOffset.trans Int.fract_zero
  have hoffset : reached.cpu.cycleOffset = 0 :=
    hpicture.onSchedule.cycleOffset.trans Int.fract_zero
  have hcycle : reached.cpu.totalCycles = reached.cpu.cycle := by
    have hcycles : (reached.cpu.totalCycles : ℤ) - reached.cpu.cycle = ⌊(0 : ℚ)⌋ :=
      hpicture.onSchedule.cycles
    rw [Int.floor_zero] at hcycles
    omega
  have hmost : (reached.cpu.totalCycles : ℚ) ≤ 0 + FrameTime.ofDot Line.vblank 1 + 529 :=
    hpicture.totalCycles_le
  rw [hcycle, FrameTime.ofDot_exact] at hmost
  rw [hstart, FrameTime.ofDot_exact] at hpast
  simp only [Line.vblank] at hmost hpast
  push_cast at hmost hpast
  have hlate : 9 < reached.cpu.cycle := by
    have hlate : (9 : ℚ) < reached.cpu.cycle := by linarith
    exact_mod_cast hlate
  obtain ⟨hraised, hhandler, hx, hentered, hsame⟩ := hruns.answerNmi hlate
  have hlimit : (((reached.act .beginVblank).act .answerNmi).cpu.cycle : ℚ) + 10 ≤
      FrameTime.ofDot Line.preRender.number 1 +
        ((reached.act .beginVblank).act .answerNmi).cpu.cycleOffset := by
    rw [hentered, hsame, hoffset, FrameTime.ofDot_exact]
    simp only [Line.number]
    push_cast
    linarith
  refine List.IsInfix.trans ?_ (List.suffix_append _ _).isInfix
  simp only [Console.moments]
  rw [← List.append_assoc (reached.momentsOf .beginVblank), hraised]
  exact ((List.prefix_append_right_inj [.vblankBegins, .raise, .nmi]).mpr
    ((hhandler.moments hx hlimit).trans (List.prefix_append _ _))).isInfix

namespace Console

/-- The program, about to run. -/
def rearming : Console ℚ Nrom SilentApu Unplugged :=
  .new (.new rearmingProgram #[] .vertical) .new ⟨⟩ ⟨⟩ .default

theorem runsArming_rearming : RunsArming rearming.powerOn.cpu rearming.powerOn.bus where
  program := rfl
  jammed := rfl
  dmaPage := rfl
  nmiPending := rfl
  vblank := rfl
  x := rfl
  place := .load rfl rfl

theorem interrupts_answered_rearming :
    (rearming.powerOn.runCalls NullSink.mk [.painted, .unpainted]).1.cpu.jammed = false ∧
      Answered (rearming.powerOn.callMoments NullSink.mk [.painted, .unpainted])
        (rearming.powerOn.runCalls NullSink.mk [.painted, .unpainted]).1.bus.ppu.nmiPending ∧
      [.vblankBegins, .raise, .nmi, .instruction, .instruction, .instruction, .raise, .nmi] <:+:
        rearming.powerOn.callMoments NullSink.mk [.painted, .unpainted] := by
  have hstart : rearming.powerOn.cpu.Restarts := ⟨rfl, rfl⟩
  have hrunning := (restarts_runCalls hstart NullSink.mk [.painted, .unpainted]).jammed
  exact ⟨hrunning, interrupts_answered rearming NullSink.mk [.painted, .unpainted] hrunning,
    (runsArming_rearming.moments_frameActs rearming.timely_powerOn.1).trans
      (List.prefix_append _ _).isInfix⟩

end Console

end Famicom
