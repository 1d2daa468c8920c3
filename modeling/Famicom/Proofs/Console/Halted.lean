import Famicom.Proofs.Console.Interrupts

/-!
# The halted processor

A processor that has met an opcode which stops its sequencer, and is not to start anew, does nothing
but let time pass: it accesses nothing and answers no interrupt. The picture unit goes on with its
frames, and changes nothing that a program could have set.

* `Cpu.runTo_eq_rounds_of_jammed`: how many rounds it takes a halted processor to reach a limit.
* `Console.Untouched`: what a frame leaves alone; `Untouched.act`: each act does.
* `Console.halted_frozen`: from every console whose processor is halted, for any number of frames.
-/

namespace Famicom

open SystemBus

/-! ## Rounds -/

namespace Cpu

variable {T B : Type} [SystemBus B] {cpu : Cpu T}

/-- A halted processor passes two cycles in each round. -/
theorem rounds_of_jammed (h : cpu.jammed = true) (bus : B) (n : Nat) :
    cpu.rounds bus n =
      ({ cpu with
          cycle := cpu.cycle + jammedCycles * n
          totalCycles := cpu.totalCycles + jammedCycles * n },
        Nat.repeat (clock · jammedCycles) n bus) := by
  induction n with
  | zero => rfl
  | succ n ih =>
    rw [rounds_succ, ih, advance_of_jammed (by exact h)]
    rfl

/-- The rounds of a halted processor that begin before a limit has passed. -/
def roundsTo [Time T] (cpu : Cpu T) (limit : T) : Nat :=
  match cpu.lastStart? limit with
  | none => 0
  | some last => (last + 2 - cpu.cycle) / 2

theorem runThrough_eq_rounds_of_jammed (h : cpu.jammed = true) (bus : B) (last : Nat) :
    cpu.runThrough bus last = cpu.rounds bus ((last + 2 - cpu.cycle) / 2) := by
  fun_induction runThrough cpu bus last with
  | case1 cpu bus hle next ih =>
    have hnext : next = cpu.elapse bus jammedCycles := advance_of_jammed h bus
    have hcount : (last + 2 - cpu.cycle) / 2 = (last + 2 - next.1.cycle) / 2 + 1 := by
      have hcycle : next.1.cycle = cpu.cycle + 2 := congrArg (·.1.cycle) hnext
      omega
    rw [hcount]
    refine ih ?_
    rw [hnext]
    exact h
  | case2 cpu bus hlt =>
    have hnone : (last + 2 - cpu.cycle) / 2 = 0 := by omega
    rw [hnone]
    rfl

theorem runTo_eq_rounds_of_jammed [Time T] (h : cpu.jammed = true) (bus : B) (limit : T) :
    cpu.runTo bus limit = cpu.rounds bus (cpu.roundsTo limit) := by
  unfold runTo roundsTo
  cases cpu.lastStart? limit with
  | none => rfl
  | some last => exact runThrough_eq_rounds_of_jammed h bus last

variable {C A D : Type} [Cartridge C] [Apu A] [Controller D]

theorem moments_of_jammed [Time T] (h : cpu.jammed = true) (bus : Bus C A D) (limit : T) :
    cpu.moments bus limit = [] := by
  have hthrough (last : Nat) : cpu.momentsThrough bus last = [] := by
    fun_induction momentsThrough cpu bus last with
    | case1 cpu bus hle next ih =>
      have hnext : next = cpu.elapse bus jammedCycles := advance_of_jammed h bus
      rw [roundMoments_of_jammed h, List.nil_append]
      refine ih ?_
      rw [hnext]
      exact h
    | case2 cpu bus hlt => rfl
  unfold moments
  split
  · rfl
  · exact hthrough _

theorem answerMoments_of_jammed (h : cpu.jammed = true) (bus : Bus C A D) :
    cpu.answerMoments bus = [] := by
  unfold answerMoments
  rw [answerNmi_of_jammed h, answerNmi_of_jammed h, entryMoments_idle cpu _ rfl]
  rfl

end Cpu

namespace Console

section

variable {T C A D : Type} [Cartridge C] {console later last : Console T C A D}

/-- Two consoles of which the second has a halted processor and is like the first in the registers
of the processor and in everything that it could have written: the memories, the settings of the
picture unit, a transfer asked for. Of a board it is like it in what reading does not change. -/
structure Untouched (console later : Console T C A D) : Prop where
  registers : later.cpu.registers = console.cpu.registers
  jammed : later.cpu.jammed = true
  ram : later.bus.ram = console.bus.ram
  dmaPage : later.bus.dmaPage = console.bus.dmaPage
  control : later.bus.ppu.control = console.bus.ppu.control
  mask : later.bus.ppu.mask = console.bus.ppu.mask
  oamAddress : later.bus.ppu.oamAddress = console.bus.ppu.oamAddress
  t : later.bus.ppu.t = console.bus.ppu.t
  fineX : later.bus.ppu.fineX = console.bus.ppu.fineX
  secondWrite : later.bus.ppu.secondWrite = console.bus.ppu.secondWrite
  ciram : later.bus.ppu.ciram = console.bus.ppu.ciram
  palette : later.bus.ppu.palette = console.bus.ppu.palette
  oam : later.bus.ppu.oam = console.bus.ppu.oam
  cartridge : ∀ {M : Type} {f : C → M},
    (∀ cartridge address, f (Cartridge.ppuRead cartridge address).2 = f cartridge) →
      f later.bus.cartridge = f console.bus.cartridge

namespace Untouched

theorem refl (h : console.cpu.jammed = true) : console.Untouched console :=
  ⟨rfl, h, rfl, rfl, rfl, rfl, rfl, rfl, rfl, rfl, rfl, rfl, rfl, fun _ => rfl⟩

theorem trans (h : console.Untouched later) (h' : later.Untouched last) :
    console.Untouched last where
  registers := h'.registers.trans h.registers
  jammed := h'.jammed
  ram := h'.ram.trans h.ram
  dmaPage := h'.dmaPage.trans h.dmaPage
  control := h'.control.trans h.control
  mask := h'.mask.trans h.mask
  oamAddress := h'.oamAddress.trans h.oamAddress
  t := h'.t.trans h.t
  fineX := h'.fineX.trans h.fineX
  secondWrite := h'.secondWrite.trans h.secondWrite
  ciram := h'.ciram.trans h.ciram
  palette := h'.palette.trans h.palette
  oam := h'.oam.trans h.oam
  cartridge hread := (h'.cartridge hread).trans (h.cartridge hread)

end Untouched

end

variable {T C A D : Type} [Time T] [Cartridge C] [Apu A] [Controller D] {console : Console T C A D}

/-! ## Acts -/

/-- A run of a halted processor lets the cycle counters and the sound unit go on. -/
theorem runCpu_of_jammed (h : console.cpu.jammed = true) (limit : T) :
    ∃ cycles apu, console.runCpu limit =
      { console with
        cpu.cycle := console.cpu.cycle + cycles
        cpu.totalCycles := console.cpu.totalCycles + cycles
        bus.apu := apu } := by
  have hclock (n : Nat) : ∃ apu, Nat.repeat (clock · Cpu.jammedCycles) n console.bus =
      { console.bus with apu } := by
    induction n with
    | zero => exact ⟨_, rfl⟩
    | succ n ih =>
      obtain ⟨apu, hapu⟩ := ih
      rw [Nat.repeat, hapu]
      exact ⟨_, rfl⟩
  obtain ⟨apu, hbus⟩ := hclock (console.cpu.roundsTo limit)
  refine ⟨Cpu.jammedCycles * console.cpu.roundsTo limit, apu, ?_⟩
  unfold runCpu
  rw [Cpu.runTo_eq_rounds_of_jammed h, Cpu.rounds_of_jammed h, hbus]

/-- No act touches anything. -/
theorem Untouched.act (h : console.cpu.jammed = true) (a : FrameAct T) :
    console.Untouched (console.act a) := by
  cases a with
  | runCpu limit =>
    obtain ⟨cycles, apu, hrun⟩ := runCpu_of_jammed h limit
    show console.Untouched (console.runCpu limit)
    rw [hrun]
    exact { refl h with }
  | perform line event =>
    have hsame := event.step.run_settings_eq console.bus.ppu console.bus.cartridge
    exact { hsame, refl h with
      cartridge := fun hread => event.step.run_cartridge hread _ _ }
  | answerNmi =>
    unfold Console.act
    rw [Cpu.answerNmi_of_jammed h]
    exact { refl h with }
  | _ => exact { refl h with }

theorem Untouched.performAll (h : console.cpu.jammed = true) (acts : List (FrameAct T)) :
    console.Untouched (console.performAll acts) :=
  performAll_induction (P := console.Untouched) (fun a _ _ hc => hc.trans (act hc.jammed a))
    (refl h)

/-- Until vertical blanking begins, no interrupt becomes pending. -/
theorem nmiPending_act_of_jammed (h : console.cpu.jammed = true)
    (hclear : console.bus.ppu.nmiPending = false) {a : FrameAct T} (ha : a ≠ .beginVblank) :
    (console.act a).bus.ppu.nmiPending = false := by
  cases a with
  | runCpu limit =>
    obtain ⟨cycles, apu, hrun⟩ := runCpu_of_jammed h limit
    show (console.runCpu limit).bus.ppu.nmiPending = false
    rw [hrun]
    exact hclear
  | perform line event =>
    exact (event.step.run_settings_eq console.bus.ppu console.bus.cartridge).nmiPending.trans hclear
  | beginVblank => exact absurd rfl ha
  | answerNmi =>
    unfold Console.act
    rw [Cpu.answerNmi_of_jammed h]
    rfl
  | _ => exact hclear

/-- Nothing happens in an act but the begin and the end of vertical blanking, at whose begin the
interrupt may be raised. -/
theorem momentsOf_of_jammed (h : console.cpu.jammed = true) (a : FrameAct T) :
    ∀ moment ∈ console.momentsOf a, moment.isMark = true ∨ moment = .raise := by
  cases a with
  | runCpu limit => simp [momentsOf, Cpu.moments_of_jammed h]
  | answerNmi => simp [momentsOf, Cpu.answerMoments_of_jammed h]
  | beginVblank =>
    rw [momentsOf]
    cases console.bus.ppu.control.nmiEnabled <;> simp [Moment.isMark]
  | _ => simp [momentsOf, Moment.isMark]

theorem moments_of_jammed (h : console.cpu.jammed = true) (acts : List (FrameAct T)) :
    ∀ moment ∈ console.moments acts, moment.isMark = true ∨ moment = .raise := by
  induction acts generalizing console with
  | nil => simp [moments]
  | cons a acts ih =>
    intro moment hmem
    rcases List.mem_append.mp hmem with hmem | hmem
    · exact momentsOf_of_jammed h a moment hmem
    · exact ih (Untouched.act h a).jammed moment hmem

/-! ## Frames -/

theorem Untouched.runUnpainted (h : console.cpu.jammed = true) :
    console.Untouched console.runUnpainted := by
  rw [runUnpainted_eq]
  exact .performAll h _

/-- A frame drops the interrupt that a halted processor cannot answer. -/
theorem nmiPending_runUnpainted_of_jammed (h : console.cpu.jammed = true) :
    console.runUnpainted.bus.ppu.nmiPending = false := by
  obtain ⟨-, rest, hrest, hframe⟩ := console.frameActs_vblank
  rw [runUnpainted_eq, hframe, performAll_append, performAll_cons, performAll_cons]
  have hbegun := (Untouched.performAll h (console.actsToVblank ++ [.beginVblank])).jammed
  rw [performAll_append, performAll_cons, performAll_nil] at hbegun
  generalize (console.performAll console.actsToVblank).act .beginVblank = begun at hbegun ⊢
  have hdropped : (begun.act .answerNmi).bus.ppu.nmiPending = false := by
    unfold Console.act
    rw [Cpu.answerNmi_of_jammed hbegun]
    rfl
  refine (performAll_induction
    (P := fun c => c.cpu.jammed = true ∧ c.bus.ppu.nmiPending = false)
    (fun a ha c hc => ⟨(Untouched.act hc.1 a).jammed, nmiPending_act_of_jammed hc.1 hc.2 ?_⟩)
    ⟨(Untouched.act hbegun _).jammed, hdropped⟩).2
  rintro rfl
  simp [hrest] at ha

theorem callMoments_of_jammed {S : Type} [VideoSink S] (h : console.cpu.jammed = true) (sink : S)
    (calls : List FrameCall) :
    ∀ moment ∈ console.callMoments sink calls, moment.isMark = true ∨ moment = .raise := by
  induction calls generalizing console sink with
  | nil => simp [callMoments]
  | cons call calls ih =>
    intro moment hmem
    rcases List.mem_append.mp hmem with hmem | hmem
    · exact moments_of_jammed h _ moment hmem
    · refine ih ?_ _ moment hmem
      rw [runCall_fst]
      exact (Untouched.runUnpainted h).jammed

/-- A halted processor is frozen, whatever the settings of the picture unit and the interrupt lines:
frames leave its registers and all that it could have written untouched, however many a host asks
for. Each of them ends and is counted; none of them answers an interrupt, executes an instruction or
leaves an interrupt pending. -/
theorem halted_frozen {S : Type} [VideoSink S] (h : console.cpu.jammed = true) (sink : S)
    (calls : List FrameCall) :
    let later := (console.runCalls sink calls).1
    console.Untouched later ∧
      later.frameCount = console.frameCount + calls.length ∧
      (calls ≠ [] → later.bus.ppu.nmiPending = false) ∧
      (∀ moment ∈ console.callMoments sink calls, moment.isMark = true ∨ moment = .raise) ∧
      later.accesses later.frameActs = [] ∧
      ∀ limit, later.cpu.runTo later.bus limit =
        later.cpu.rounds later.bus (later.cpu.roundsTo limit) := by
  intro later
  obtain ⟨hsame, hcount, hpending⟩ : console.Untouched later ∧
      later.frameCount = console.frameCount + (0 + calls.length) ∧
        (0 + calls.length ≠ 0 → later.bus.ppu.nmiPending = false) := by
    refine runCalls_induction (P := fun n c => console.Untouched c ∧
      c.frameCount = console.frameCount + n ∧ (n ≠ 0 → c.bus.ppu.nmiPending = false))
      ?_ ⟨.refl h, rfl, absurd rfl⟩ sink calls
    rintro n c ⟨hsame, hcount, -⟩
    refine ⟨hsame.trans (.runUnpainted hsame.jammed), ?_, fun _ =>
      nmiPending_runUnpainted_of_jammed hsame.jammed⟩
    rw [frameCount_runUnpainted, hcount]
    rfl
  rw [Nat.zero_add] at hcount hpending
  exact ⟨hsame, hcount, fun hne => hpending (by simpa using hne),
    callMoments_of_jammed h sink calls, accesses_of_jammed hsame.jammed _,
    Cpu.runTo_eq_rounds_of_jammed hsame.jammed _⟩

/-- A halted console whose picture unit asks for an interrupt in every frame. -/
def halted : Console ℚ Nrom SilentApu Unplugged :=
  { bare with cpu.jammed := true, bus.ppu.control := ⟨0x80⟩ }

theorem frozen_halted :
    halted.cpu.jammed = true ∧
      let later := (halted.runCalls NullSink.mk [.painted, .unpainted]).1
      halted.Untouched later ∧ later.bus.cartridge = halted.bus.cartridge ∧
        later.frameCount = 2 ∧ later.bus.ppu.nmiPending = false := by
  have hjammed : halted.cpu.jammed = true := rfl
  obtain ⟨hsame, hcount, hpending, -⟩ :=
    halted_frozen hjammed NullSink.mk [.painted, .unpainted]
  have hboard := hsame.cartridge (f := fun board => board) fun _ _ => rfl
  exact ⟨hjammed, hsame, hboard, hcount, hpending (List.cons_ne_nil _ _)⟩

end Console

end Famicom
