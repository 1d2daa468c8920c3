import Mathlib.Data.List.Induction
import Famicom.Proofs.Console.Acts
import Famicom.Proofs.Console.Calls
import Famicom.Proofs.Cpu.Passive
import Famicom.Proofs.Cpu.Replay
import Famicom.Proofs.Ppu.Settings

/-!
# The moments of an interrupt

What happens to the interrupt of vertical blanking while frames run, moment by moment: it is raised,
at the beginning of vertical blanking or by a write during it, and the processor answers it with a
sequence of its own, before it begins another instruction. That it goes through a sequence shows in
what it accesses between two instructions, and in the registers after that.

* `Cpu.Enters`: what shows that the processor has gone through an interrupt sequence.
* `Cpu.roundMoments`, `Console.moments`: what happens in a round, and in some acts of a frame.
* `Signal.follow?`: the order in which moments may follow each other.
* `Signal.next_of_pending`, `Signal.last_of_pending`, `Signal.count_raise`: what that order says.
* `Agrees.round`: a round keeps to it.
-/

namespace Famicom

open SystemBus

/-- A moment of a frame. -/
inductive Moment where
  /-- The flag of vertical blanking rises. -/
  | vblankBegins
  /-- The flag of vertical blanking is cleared with the other flags of the picture. -/
  | vblankEnds
  /-- The non-maskable interrupt is raised. -/
  | raise
  /-- The processor runs the sequence of the non-maskable interrupt. -/
  | nmi
  /-- The processor runs the sequence of the maskable interrupt. -/
  | irq
  /-- The processor accesses the bus between two instructions, but not as in a sequence. -/
  | stray
  /-- The processor begins an instruction. -/
  | instruction
  deriving DecidableEq, Repr

/-- Whether a moment marks the begin or the end of vertical blanking. -/
def Moment.isMark : Moment → Bool
  | vblankBegins | vblankEnds => true
  | _ => false

/-! ## Watching a bus -/

/-- A bus, and how often a write to it has raised the interrupt. -/
structure Watch (C A D : Type) where
  bus : Bus C A D
  raises : Nat

namespace Watch

variable {C A D : Type} [Cartridge C] [Apu A] [Controller D]

/-- A bus on which nothing has been raised. -/
def start (bus : Bus C A D) : Watch C A D := ⟨bus, 0⟩

omit [Cartridge C] [Apu A] [Controller D] in
theorem start_bus {w : Watch C A D} (h : w.raises = 0) : start w.bus = w := by
  cases w
  cases h
  rfl

instance : SystemBus (Watch C A D) where
  read w address := ((read w.bus address).1, { w with bus := (read w.bus address).2 })
  write w address value :=
    ⟨write w.bus address value, w.raises + (w.bus.raises address value).toNat⟩
  clock w cycles := { w with bus := clock w.bus cycles }
  takeNmi w := ((takeNmi w.bus).1, { w with bus := (takeNmi w.bus).2 })
  irqLine w := irqLine w.bus
  takeDmaRequest w := ((takeDmaRequest w.bus).1, { w with bus := (takeDmaRequest w.bus).2 })
  writeOam w value := { w with bus := writeOam w.bus value }

/-- The processor does not notice that its bus is watched. -/
theorem busMap_bus : BusMap (Watch.bus : Watch C A D → Bus C A D) where
  read _ _ := rfl
  write _ _ _ := rfl
  clock _ _ := rfl
  takeNmi _ := rfl
  irqLine _ := rfl
  takeDmaRequest _ := rfl
  writeOam _ _ := rfl

end Watch

/-! ## Interrupt sequences -/

/-- What an interrupt sequence writes, the latest first: the address to return to and the status are
pushed. -/
def Registers.entryPushes (r : Registers) : List Access :=
  [.write (stackAddress (r.sp - 2)) (r.p.pushed false),
    .write (stackAddress (r.sp - 1)) (Word.low r.pc),
    .write (stackAddress r.sp) (Word.high r.pc)]

namespace Cpu

variable {T B : Type} [SystemBus B]

/-- On a bus, a processor has gone through the interrupt sequence of the handler at `vector`, and
`later` is where this has led it and a recorder. -/
structure Enters (cpu : Cpu T) (bus : B) (vector : UInt16) (later : Cpu T × Recorder B) :
    Prop where
  /-- It has pushed what the return needs and read the vector, -/
  accesses : later.2.accesses =
    .read (vector + 1) :: .read vector :: cpu.registers.entryPushes
  /-- its next instruction is where the vector points to, further interrupts are disabled, -/
  registers : later.1.registers =
    { cpu.registers with
      sp := cpu.registers.sp - 3
      pc := (readWord (replay bus cpu.registers.entryPushes) vector).1
      p.interruptDisable := true }
  /-- and seven cycles have passed. -/
  cycle : later.1.cycle = cpu.cycle + 7
  totalCycles : later.1.totalCycles = cpu.totalCycles + 7

instance (cpu : Cpu T) (bus : B) (vector : UInt16) (later : Cpu T × Recorder B) :
    Decidable (cpu.Enters bus vector later) :=
  decidable_of_iff (_ ∧ _ ∧ _ ∧ _)
    ⟨fun ⟨ha, hr, hc, ht⟩ => ⟨ha, hr, hc, ht⟩, fun ⟨ha, hr, hc, ht⟩ => ⟨ha, hr, hc, ht⟩⟩

/-- Both hardware interrupts run such a sequence. -/
theorem enters_runSequence (cpu : Cpu T) (bus : B) (vector : UInt16) :
    cpu.Enters bus vector (cpu.runSequence (Recorder.start bus)
      fun r recorder => r.interrupt recorder vector false) := by
  have htwo : cpu.registers.sp - 2 = cpu.registers.sp - 1 - 1 := by grind
  have hthree : cpu.registers.sp - 3 = cpu.registers.sp - 1 - 1 - 1 := by grind
  have hpushes : cpu.registers.entryPushes =
      [.write (stackAddress (cpu.registers.sp - 1 - 1)) (cpu.registers.p.pushed false),
        .write (stackAddress (cpu.registers.sp - 1)) (Word.low cpu.registers.pc),
        .write (stackAddress cpu.registers.sp) (Word.high cpu.registers.pc)] := by
    rw [Registers.entryPushes, htwo]
  refine ⟨?_, ?_, rfl, rfl⟩
  · rw [hpushes]
    rfl
  · rw [hpushes, hthree]
    rfl

/-- Which of the two handlers a processor has entered, if it has accessed the bus at all. -/
def entryMoments (cpu : Cpu T) (bus : B) (later : Cpu T × Recorder B) : List Moment :=
  if cpu.Enters bus Interrupt.nmiVector later then [.nmi]
  else if cpu.Enters bus Interrupt.irqVector later then [.irq]
  else later.2.accesses.map fun _ => .stray

theorem entryMoments_nmi (cpu : Cpu T) (bus : B) :
    cpu.entryMoments bus (cpu.nmi (Recorder.start bus)) = [.nmi] :=
  if_pos (cpu.enters_runSequence bus Interrupt.nmiVector)

theorem entryMoments_irq {cpu : Cpu T} (h : cpu.registers.p.interruptDisable = false) (bus : B) :
    cpu.entryMoments bus (cpu.irq (Recorder.start bus)) = [.irq] := by
  have hirq := cpu.enters_runSequence bus Interrupt.irqVector
  unfold irq
  rw [h, if_neg Bool.false_ne_true, entryMoments, if_neg fun hnmi => ?_, if_pos hirq]
  -- the two sequences read different vectors
  have hvector := List.head_eq_of_cons_eq (hnmi.accesses.symm.trans hirq.accesses)
  exact absurd hvector (by decide)

/-- A processor that does not access the bus enters no handler. -/
theorem entryMoments_idle (cpu : Cpu T) (bus : B) {later : Cpu T × Recorder B}
    (h : later.2.accesses = []) : cpu.entryMoments bus later = [] := by
  have hnot (vector : UInt16) : ¬ cpu.Enters bus vector later :=
    fun henters => List.cons_ne_nil _ _ (henters.accesses.symm.trans h)
  rw [entryMoments, if_neg (hnot _), if_neg (hnot _), h]
  rfl

end Cpu

/-! ## Moments -/

namespace Cpu

variable {T B C A D : Type} [SystemBus B] [Cartridge C] [Apu A] [Controller D]

/-- The interrupt sequence with which a round begins, if any. -/
def pollMoments (cpu : Cpu T) (bus : B) : List Moment :=
  cpu.entryMoments (takeNmi bus).2 (cpu.poll (Recorder.start bus))

/-- What happens in a round: a sequence, an instruction, and what their writes raise. -/
def roundMoments (cpu : Cpu T) (bus : Bus C A D) : List Moment :=
  let polled := cpu.poll bus
  cpu.pollMoments bus ++ .replicate (cpu.poll (Watch.start bus)).2.raises .raise ++
    (if cpu.jammed then [] else [.instruction]) ++
    .replicate (polled.1.step (Watch.start polled.2)).2.2.raises .raise

/-- What happens in the rounds that begin up to cycle `last`. -/
def momentsThrough (cpu : Cpu T) (bus : Bus C A D) (last : Nat) : List Moment :=
  if _ : cpu.cycle ≤ last then
    let next := cpu.advance bus
    cpu.roundMoments bus ++ momentsThrough next.1 next.2 last
  else []
termination_by last + 1 - cpu.cycle
decreasing_by
  have := cycle_lt_advance cpu bus
  omega

/-- What happens on the way to a limit. -/
def moments [Time T] (cpu : Cpu T) (bus : Bus C A D) (limit : T) : List Moment :=
  match cpu.lastStart? limit with
  | none => []
  | some last => cpu.momentsThrough bus last

/-- What happens when vertical blanking begins. -/
def answerMoments (cpu : Cpu T) (bus : Bus C A D) : List Moment :=
  cpu.entryMoments (takeNmi bus).2 (cpu.answerNmi (Recorder.start bus)) ++
    .replicate (cpu.answerNmi (Watch.start bus)).2.raises .raise

/-- A running processor answers the one interrupt before the other. -/
theorem poll_of_running {cpu : Cpu T} (h : cpu.jammed = false) (bus : B) :
    cpu.poll bus =
      if (takeNmi bus).1 then cpu.nmi (takeNmi bus).2
      else if irqLine (takeNmi bus).2 then cpu.irq (takeNmi bus).2
      else (cpu, (takeNmi bus).2) := by
  unfold poll
  rw [h, if_neg Bool.false_ne_true]
  rfl

/-- What a poll does, and the moment in which it does it. -/
theorem poll_cases {cpu : Cpu T} (h : cpu.jammed = false) (bus : B) :
    ((takeNmi bus).1 = true ∧ cpu.pollMoments bus = [.nmi] ∧
        cpu.poll bus = cpu.nmi (takeNmi bus).2) ∨
      ((takeNmi bus).1 = false ∧ cpu.pollMoments bus = [.irq] ∧
        cpu.poll bus = cpu.irq (takeNmi bus).2) ∨
      ((takeNmi bus).1 = false ∧ cpu.pollMoments bus = [] ∧
        cpu.poll bus = (cpu, (takeNmi bus).2)) := by
  have htaken : takeNmi (Recorder.start bus) =
      ((takeNmi bus).1, Recorder.start (takeNmi bus).2) := rfl
  unfold pollMoments
  rw [poll_of_running h, poll_of_running h, htaken]
  generalize takeNmi bus = taken
  obtain ⟨pending, bus⟩ := taken
  have hline : irqLine (Recorder.start bus) = irqLine bus := rfl
  cases pending with
  | true => exact .inl ⟨rfl, cpu.entryMoments_nmi bus, rfl⟩
  | false =>
    dsimp only
    rw [if_neg Bool.false_ne_true, if_neg Bool.false_ne_true, hline]
    cases irqLine bus with
    | false => exact .inr (.inr ⟨rfl, cpu.entryMoments_idle bus rfl, rfl⟩)
    | true =>
      rw [if_pos rfl, if_pos rfl]
      cases hdisabled : cpu.registers.p.interruptDisable with
      | false => exact .inr (.inl ⟨rfl, entryMoments_irq hdisabled bus, rfl⟩)
      | true =>
        have hmasked {B' : Type} [SystemBus B'] (bus : B') : cpu.irq bus = (cpu, bus) :=
          if_pos hdisabled
        rw [hmasked, hmasked]
        exact .inr (.inr ⟨rfl, cpu.entryMoments_idle bus rfl, rfl⟩)

/-- A round begins with the interrupt of vertical blanking if it is pending, -/
theorem pollMoments_of_pending {cpu : Cpu T} (h : cpu.jammed = false) {bus : B}
    (hnmi : (takeNmi bus).1 = true) : cpu.pollMoments bus = [.nmi] := by
  have hnmi' : (takeNmi (Recorder.start bus)).1 = true := hnmi
  rw [pollMoments, poll_of_running h, hnmi']
  exact cpu.entryMoments_nmi _

/-- and with the next instruction if no interrupt waits. -/
theorem pollMoments_of_quiet {cpu : Cpu T} (h : cpu.jammed = false) {bus : B}
    (hnmi : (takeNmi bus).1 = false) (hirq : irqLine (takeNmi bus).2 = false) :
    cpu.pollMoments bus = [] := by
  have hnmi' : (takeNmi (Recorder.start bus)).1 = false := hnmi
  have hirq' : irqLine (takeNmi (Recorder.start bus)).2 = false := hirq
  rw [pollMoments, poll_of_running h, hnmi', hirq']
  exact entryMoments_idle cpu _ rfl

/-- A running processor answers the interrupt of vertical blanking if it is pending. -/
theorem answerMoments_of_running {cpu : Cpu T} (h : cpu.jammed = false) (bus : Bus C A D) :
    cpu.answerMoments bus =
      (if (takeNmi bus).1 then [.nmi] else []) ++
        .replicate (cpu.answerNmi (Watch.start bus)).2.raises .raise := by
  have hanswer : cpu.answerNmi (Recorder.start bus) =
      if (takeNmi bus).1 then cpu.nmi (Recorder.start (takeNmi bus).2)
      else (cpu, Recorder.start (takeNmi bus).2) := by
    unfold answerNmi
    rw [h, Bool.not_false]
    dsimp only
    rw [Bool.and_true]
    rfl
  rw [answerMoments, hanswer]
  split
  · rw [entryMoments_nmi]
  · rw [entryMoments_idle cpu _ rfl]

end Cpu

namespace Console

variable {T C A D S : Type} [Time T] [Cartridge C] [Apu A] [Controller D] [VideoSink S]

/-- What happens in an act. -/
def momentsOf (console : Console T C A D) : FrameAct T → List Moment
  | .runCpu limit => console.cpu.moments console.bus limit
  | .beginVblank =>
    .vblankBegins :: if console.bus.ppu.control.nmiEnabled then [.raise] else []
  | .answerNmi => console.cpu.answerMoments console.bus
  | .endVblank => [.vblankEnds]
  | _ => []

/-- What happens in some acts. -/
def moments (console : Console T C A D) : List (FrameAct T) → List Moment
  | [] => []
  | a :: rest => console.momentsOf a ++ (console.act a).moments rest

/-- What happens in the frames that a host asks for. -/
def callMoments (console : Console T C A D) (sink : S) : List FrameCall → List Moment
  | [] => []
  | call :: calls =>
    console.moments console.frameActs ++
      (console.runCall sink call).1.callMoments (console.runCall sink call).2 calls

theorem moments_append (console : Console T C A D) (acts acts' : List (FrameAct T)) :
    console.moments (acts ++ acts') =
      console.moments acts ++ (console.performAll acts).moments acts' := by
  induction acts generalizing console with
  | nil => rfl
  | cons a acts ih => simp only [List.cons_append, moments, ih, List.append_assoc, performAll_cons]

end Console

/-! ## Observers -/

section

variable {S M : Type} {next? : S → M → Option S} {s s' : S} {before after : List M} {m : M}

/-- An observer who can follow a trace past a moment can follow it up to the moment and from it
on. -/
theorem foldlM_split (h : (before ++ m :: after).foldlM next? s = some s') :
    ∃ mid later, before.foldlM next? s = some mid ∧ next? mid m = some later ∧
      after.foldlM next? later = some s' := by
  rw [List.foldlM_append] at h
  obtain ⟨mid, hbefore, hrest⟩ := Option.bind_eq_some_iff.mp h
  obtain ⟨later, hm, hafter⟩ := Option.bind_eq_some_iff.mp hrest
  exact ⟨mid, later, hbefore, hm, hafter⟩

theorem foldlM_concat (h : (before ++ [m]).foldlM next? s = some s') :
    ∃ mid, before.foldlM next? s = some mid ∧ next? mid m = some s' := by
  obtain ⟨mid, last, hbefore, hlast, heq⟩ := foldlM_split h
  cases heq
  exact ⟨mid, hbefore, hlast⟩

end

/-! ## The order of moments -/

/-- What an observer knows of the interrupt. -/
structure Signal where
  /-- Whether it has been raised and not been answered. -/
  pending : Bool
  /-- Whether vertical blanking has begun and not ended. -/
  blanking : Bool
  deriving DecidableEq, Repr

namespace Signal

/-- What a moment tells the observer, unless it is out of order: an interrupt is raised during
vertical blanking only and while none is pending, and answered while one is pending, before anything
else happens but the end of vertical blanking. -/
def next? (s : Signal) : Moment → Option Signal
  | .vblankBegins => if s.pending then none else some { s with blanking := true }
  | .vblankEnds => some { s with blanking := false }
  | .raise => if s.blanking && !s.pending then some { s with pending := true } else none
  | .nmi => if s.pending then some { s with pending := false } else none
  | .irq | .instruction => if s.pending then none else some s
  | .stray => none

/-- What some moments tell the observer, if they are in order. -/
def follow? (s : Signal) (trace : List Moment) : Option Signal := trace.foldlM next? s

@[simp] theorem follow?_nil (s : Signal) : s.follow? [] = some s := rfl

@[simp] theorem follow?_cons (s : Signal) (m : Moment) (trace : List Moment) :
    s.follow? (m :: trace) = (s.next? m).bind (follow? · trace) := rfl

theorem follow?_append (s : Signal) (trace trace' : List Moment) :
    s.follow? (trace ++ trace') = (s.follow? trace).bind (follow? · trace') :=
  List.foldlM_append

variable {s s' : Signal} {trace : List Moment}

/-- While an interrupt is pending, nothing happens before it is answered. -/
theorem next_of_pending (h : s.follow? trace = some s') (hpending : s.pending = true) :
    trace.find? (!·.isMark) = some .nmi ∨
      trace.find? (!·.isMark) = none ∧ s'.pending = true := by
  induction trace generalizing s with
  | nil =>
    cases h
    exact .inr ⟨rfl, hpending⟩
  | cons m trace ih =>
    obtain ⟨later, hm, hrest⟩ := Option.bind_eq_some_iff.mp h
    cases m with
    | vblankEnds =>
      cases hm
      exact ih hrest hpending
    | nmi => exact .inl rfl
    | _ => simp [next?, hpending] at hm

/-- An interrupt is pending after a moment if the moment raises it, or ends vertical blanking while
it is pending. -/
theorem eq_vblankEnds_of_pending {m : Moment} (h : s.next? m = some s') (hm : m ≠ .raise)
    (hpending : s'.pending = true) : m = .vblankEnds ∧ s.pending = true := by
  rcases s with ⟨_ | _, _ | _⟩ <;> cases m <;> simp [next?] at h hm <;> simp [← h] at hpending ⊢

/-- Only the marks change whether vertical blanking is on. -/
theorem blanking_next? {m : Moment} (h : s.next? m = some s') (hm : m.isMark = false) :
    s'.blanking = s.blanking := by
  rcases s with ⟨_ | _, _ | _⟩ <;> cases m <;> simp [next?, Moment.isMark] at h hm <;> simp [← h]

/-- An interrupt is raised during vertical blanking, and pending then. -/
theorem pending_of_raise (h : s.next? .raise = some s') :
    s.blanking = true ∧ s'.pending = true := by
  simp only [next?, Option.ite_none_right_eq_some, Bool.and_eq_true, Option.some.injEq] at h
  exact ⟨h.1.1, h.2 ▸ rfl⟩

/-- Only a pending interrupt is answered. -/
theorem pending_of_nmi (h : s.next? .nmi = some s') : s.pending = true := by
  by_contra hclear
  simp [next?, hclear] at h

/-- What happened last before an interrupt was pending is that it was raised. -/
theorem last_of_pending (h : s.follow? trace = some s') (hclear : s.pending = false)
    (hpending : s'.pending = true) : trace.reverse.find? (!·.isMark) = some .raise := by
  induction trace using List.reverseRecOn generalizing s' with
  | nil =>
    cases h
    simp [hclear] at hpending
  | append_singleton trace m ih =>
    obtain ⟨before, hbefore, hm⟩ := foldlM_concat h
    rw [List.reverse_concat, List.find?_cons]
    by_cases hraise : m = .raise
    · subst hraise
      rfl
    · obtain ⟨rfl, hearlier⟩ := eq_vblankEnds_of_pending hm hraise hpending
      exact ih hbefore hearlier

/-- The last mark before vertical blanking is on is its begin. -/
theorem last_of_blanking (h : s.follow? trace = some s') (hclear : s.blanking = false)
    (hblanking : s'.blanking = true) : trace.reverse.find? (·.isMark) = some .vblankBegins := by
  induction trace using List.reverseRecOn generalizing s' with
  | nil =>
    cases h
    simp [hclear] at hblanking
  | append_singleton trace m ih =>
    obtain ⟨before, hbefore, hm⟩ := foldlM_concat h
    rw [List.reverse_concat, List.find?_cons]
    by_cases hmark : m.isMark = true
    · cases m with
      | vblankBegins => rfl
      | vblankEnds =>
        cases hm
        cases hblanking
      | _ => cases hmark
    · rw [Bool.not_eq_true] at hmark
      rw [blanking_next? hm hmark] at hblanking
      rw [hmark]
      exact ih hbefore hblanking

/-- A moment that raises the interrupt makes it pending, one that answers it does not leave it so,
and no other matters. -/
theorem toNat_pending_next? {m : Moment} (h : s.next? m = some s') :
    s.pending.toNat + [m].count .raise = [m].count .nmi + s'.pending.toNat := by
  rcases s with ⟨_ | _, _ | _⟩ <;> cases m <;> simp [next?] at h <;> subst h <;> rfl

/-- As many interrupts are raised as are answered and are pending at the end. -/
theorem count_raise (h : s.follow? trace = some s') :
    s.pending.toNat + trace.count .raise = trace.count .nmi + s'.pending.toNat := by
  induction trace generalizing s with
  | nil =>
    cases h
    exact Nat.add_comm _ _
  | cons m trace ih =>
    obtain ⟨later, hm, hrest⟩ := Option.bind_eq_some_iff.mp h
    have hfirst := toNat_pending_next? hm
    have hlater := ih hrest
    rw [← List.singleton_append, List.count_append, List.count_append]
    omega

end Signal

/-- What a trace must look like for no interrupt to be lost or doubled, if `pending` tells whether
one is pending at its end. -/
structure Answered (trace : List Moment) (pending : Bool) : Prop where
  /-- Between two instructions the processor runs whole sequences, and does nothing else. -/
  strict : .stray ∉ trace
  /-- What comes after an interrupt is raised, apart from the end of vertical blanking, is the
  sequence that answers it. -/
  next_of_raise : ∀ before after, trace = before ++ .raise :: after →
    after.find? (!·.isMark) = some .nmi ∨ after.find? (!·.isMark) = none ∧ pending = true
  /-- What came before a sequence, apart from the end of vertical blanking, is that its interrupt
  was raised. -/
  last_of_nmi : ∀ before after, trace = before ++ .nmi :: after →
    before.reverse.find? (!·.isMark) = some .raise
  /-- When an interrupt is raised, vertical blanking has begun and not ended. -/
  blanking_of_raise : ∀ before after, trace = before ++ .raise :: after →
    before.reverse.find? (·.isMark) = some .vblankBegins
  /-- As many interrupts are raised as are answered, but for the one that is pending. -/
  count_raise : trace.count .raise = trace.count .nmi + pending.toNat

/-- In a trace whose moments are in order, every interrupt is answered. -/
theorem Signal.answered {trace : List Moment} {s' : Signal}
    (h : follow? ⟨false, false⟩ trace = some s') : Answered trace s'.pending where
  strict hmem := by
    obtain ⟨before, after, rfl⟩ := List.append_of_mem hmem
    obtain ⟨_, _, -, hstray, -⟩ := foldlM_split h
    cases hstray
  next_of_raise before after hsplit := by
    rw [hsplit] at h
    obtain ⟨_, _, -, hraise, hafter⟩ := foldlM_split h
    exact next_of_pending hafter (pending_of_raise hraise).2
  last_of_nmi before after hsplit := by
    rw [hsplit] at h
    obtain ⟨_, _, hbefore, hnmi, -⟩ := foldlM_split h
    exact last_of_pending hbefore rfl (pending_of_nmi hnmi)
  blanking_of_raise before after hsplit := by
    rw [hsplit] at h
    obtain ⟨_, _, hbefore, hraise, -⟩ := foldlM_split h
    exact last_of_blanking hbefore rfl (pending_of_raise hraise).1
  count_raise := by simpa using Signal.count_raise h

/-! ## A round -/

section

variable {T C A D : Type} [Cartridge C] [Apu A] [Controller D]

/-- The observer knows whether an interrupt is pending, and the flag is up during vertical blanking
only. -/
structure Signal.Agrees (s : Signal) (ppu : Ppu) : Prop where
  pending : s.pending = ppu.nmiPending
  blanking : ppu.status.vblank = true → s.blanking = true

namespace Watch

/-- Since the watch began, nothing has been raised or taken; the flag is up only if `flag` holds. -/
def Clear (flag : Bool) (w : Watch C A D) : Prop :=
  w.raises = 0 ∧ w.bus.ppu.nmiPending = false ∧ (w.bus.ppu.status.vblank = true → flag = true)

/-- Since the watch began, an interrupt has been raised once and is pending, or none has been
raised; the flag is up only if `flag` holds, and so it was when the interrupt was raised. -/
def AtMostOnce (flag : Bool) (w : Watch C A D) : Prop :=
  w.raises = w.bus.ppu.nmiPending.toNat ∧
    (w.bus.ppu.nmiPending = true ∨ w.bus.ppu.status.vblank = true → flag = true)

/-- A push cannot raise the interrupt. -/
theorem ppuRegister?_stackAddress (sp : UInt8) : ppuRegister? (stackAddress sp) = none := by
  refine if_neg fun h => ?_
  have hlow : 0x2000 ≤ (stackAddress sp).toNat := h.1
  have hsp := sp.toNat_lt
  simp [stackAddress, UInt16.toNat_add] at hlow
  omega

/-- What an instruction does apart from its own write leaves the interrupt alone, and the flag of
vertical blanking at most falls. -/
theorem passive {P : Nat → Bool → Bool → Prop}
    (hfall : ∀ n pending up later, (later = true → up = true) →
      P n pending up → P n pending later) :
    Passive fun w : Watch C A D => P w.raises w.bus.ppu.nmiPending w.bus.ppu.status.vblank where
  read w address h := by
    have hsame := w.bus.read_steering address
    have hp := hfall _ _ _ _ hsame.vblank h
    rw [← hsame.nmiPending] at hp
    exact hp
  stack w sp value h := by
    obtain ⟨-, -, hpending, hflag⟩ := w.bus.write_steering (stackAddress sp) value
    have hnot : w.bus.raises (stackAddress sp) value = false := by
      simp [Bus.raises, ppuRegister?_stackAddress]
    rw [hnot, Bool.or_false] at hpending
    have hp := hfall _ _ _ _ hflag h
    rw [← hpending] at hp
    show P (w.raises + (w.bus.raises (stackAddress sp) value).toNat) _ _
    rw [hnot]
    exact hp
  clock _ _ h := h
  takeDmaRequest _ h := h
  writeOam _ _ h := h

variable {flag : Bool}

theorem passive_clear : Passive (Clear (C := C) (A := A) (D := D) flag) :=
  passive (P := fun n pending up => n = 0 ∧ pending = false ∧ (up = true → flag = true))
    fun _ _ _ _ hfall h => ⟨h.1, h.2.1, fun hv => h.2.2 (hfall hv)⟩

theorem passive_atMostOnce : Passive (AtMostOnce (C := C) (A := A) (D := D) flag) :=
  passive (P := fun n pending up =>
      n = pending.toNat ∧ (pending = true ∨ up = true → flag = true))
    fun _ _ _ _ hfall h => ⟨h.1, fun hv => h.2 (hv.imp_right hfall)⟩

/-- An instruction raises the interrupt at most once. -/
theorem Clear.step {w : Watch C A D} (h : Clear flag w) (cpu : Cpu T) :
    AtMostOnce flag (cpu.step w).2.2 := by
  refine passive_clear.step passive_atMostOnce ?_ ?_ h cpu
  · rintro w ⟨hraises, hpending, hflag⟩
    exact ⟨by rw [hraises, hpending]; rfl, by simpa [hpending] using hflag⟩
  · rintro w address value ⟨hraises, hpending, hflag⟩
    obtain ⟨-, -, hlater, hfall⟩ := w.bus.write_steering address value
    have hup (hr : w.bus.raises address value = true) : w.bus.ppu.status.vblank = true := by
      simp only [Bus.raises, Bool.and_eq_true] at hr
      exact hr.2.2
    rw [hpending, Bool.false_or] at hlater
    refine ⟨?_, fun hv => hflag ?_⟩
    · show w.raises + (w.bus.raises address value).toNat = _
      rw [hraises, Nat.zero_add]
      exact congrArg Bool.toNat hlater.symm
    · rcases hv with hv | hv
      · exact hup (hlater.symm.trans hv)
      · exact hfall hv

theorem clear_takeNmi (bus : Bus C A D) :
    Clear bus.ppu.status.vblank (takeNmi (start bus)).2 :=
  ⟨rfl, rfl, id⟩

/-- A poll answers the interrupt that is pending. -/
theorem clear_poll {cpu : Cpu T} (h : cpu.jammed = false) (bus : Bus C A D) :
    Clear bus.ppu.status.vblank (cpu.poll (start bus)).2 := by
  have htaken := clear_takeNmi bus
  rcases Cpu.poll_cases h (start bus) with ⟨-, -, hpoll⟩ | ⟨-, -, hpoll⟩ | ⟨-, -, hpoll⟩
  · rw [hpoll]
    exact passive_clear.nmi htaken cpu
  · rw [hpoll]
    exact passive_clear.irq htaken cpu
  · rw [hpoll]
    exact htaken

end Watch

/-- Nothing happens in the rounds of a halted processor. -/
theorem Cpu.roundMoments_of_jammed {cpu : Cpu T} (h : cpu.jammed = true) (bus : Bus C A D) :
    cpu.roundMoments bus = [] := by
  have hpoll {B : Type} [SystemBus B] (bus : B) : cpu.poll bus = (cpu, bus) := if_pos h
  have hstep : (cpu.step (Watch.start bus)).2.2 = clock (Watch.start bus) jammedCycles := by
    unfold step
    rw [if_pos h]
    rfl
  have hidle : cpu.entryMoments (takeNmi bus).2 (cpu, Recorder.start bus) = [] :=
    cpu.entryMoments_idle _ rfl
  simp only [roundMoments, pollMoments, hpoll, hidle, hstep, h]
  rfl

/-- A round of a running processor answers the interrupt that was pending and raises it at most
once, during vertical blanking. -/
theorem Cpu.round_atMostOnce {cpu : Cpu T} (h : cpu.jammed = false) (bus : Bus C A D) :
    ∃ raises, cpu.roundMoments bus =
        cpu.pollMoments bus ++ .instruction :: .replicate raises .raise ∧
      raises = (cpu.advance bus).2.ppu.nmiPending.toNat ∧
      ((cpu.advance bus).2.ppu.nmiPending = true ∨ (cpu.advance bus).2.ppu.status.vblank = true →
        bus.ppu.status.vblank = true) := by
  have hclear := Watch.clear_poll h bus
  have hpoll : cpu.poll bus =
      ((cpu.poll (Watch.start bus)).1, (cpu.poll (Watch.start bus)).2.bus) :=
    Watch.busMap_bus.poll cpu (Watch.start bus)
  have hpolled : Watch.start (cpu.poll bus).2 = (cpu.poll (Watch.start bus)).2 := by
    rw [hpoll]
    exact Watch.start_bus hclear.1
  have hstep := hclear.step (cpu.poll bus).1
  rw [← hpolled] at hstep
  have hround : (cpu.advance bus).2 =
      ((cpu.poll bus).1.step (Watch.start (cpu.poll bus).2)).2.2.bus :=
    congrArg (·.2.2) (Watch.busMap_bus.step (cpu.poll bus).1 (Watch.start (cpu.poll bus).2))
  refine ⟨((cpu.poll bus).1.step (Watch.start (cpu.poll bus).2)).2.2.raises, ?_, ?_, ?_⟩
  · unfold roundMoments
    rw [hclear.1, h]
    simp
  · rw [hround]
    exact hstep.1
  · rw [hround]
    exact hstep.2

namespace Signal.Agrees

variable {s : Signal}

/-- The moments of a round are in order, and the observer knows the interrupt after it. -/
theorem round {bus : Bus C A D} (h : s.Agrees bus.ppu) (cpu : Cpu T) :
    ∃ s', s.follow? (cpu.roundMoments bus) = some s' ∧ s'.Agrees (cpu.advance bus).2.ppu := by
  by_cases hjammed : cpu.jammed = true
  · -- a halted processor does nothing but let time pass
    rw [Cpu.roundMoments_of_jammed hjammed, Cpu.advance_of_jammed hjammed]
    exact ⟨s, rfl, h⟩
  rw [Bool.not_eq_true] at hjammed
  obtain ⟨raises, hmoments, hraises, hflag⟩ := Cpu.round_atMostOnce hjammed bus
  have hpolled : s.follow? (cpu.pollMoments bus) = some { s with pending := false } := by
    have hpending : (takeNmi bus).1 = s.pending := h.pending.symm
    rcases Cpu.poll_cases hjammed bus with ⟨htaken, hpoll, -⟩ | ⟨htaken, hpoll, -⟩ |
        ⟨htaken, hpoll, -⟩
    all_goals
      obtain ⟨pending, blanking⟩ := s
      cases htaken.symm.trans hpending
      simp [hpoll, next?]
  generalize (cpu.advance bus).2.ppu = later at hraises hflag ⊢
  refine ⟨⟨later.nmiPending, s.blanking⟩, ?_, rfl, fun hv => h.blanking (hflag (.inr hv))⟩
  rw [hmoments, hraises, follow?_append, hpolled]
  cases hpending : later.nmiPending with
  | false => simp [next?]
  | true => simp [next?, h.blanking (hflag (.inl hpending))]

end Signal.Agrees

end

end Famicom
