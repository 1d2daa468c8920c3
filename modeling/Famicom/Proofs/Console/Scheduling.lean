import Famicom.Proofs.Console.Lockstep
import Famicom.Proofs.Cpu.ExactTime

/-!
# What a host schedules

A host asks for frames one by one, or calls with timestamps and leaves it to the pacer how many to
run; it may pause and continue at any time. None of this is visible to the program.

* `Played.answerAll`: whatever the host asks for, the console has run some frames since power-on.
* `Reachable.ppu_induction`: what holds of the picture unit between frames.
* `frameHeads`, `exists_frames`: the frames that a call runs.
* `tick_of_idle`, `tick_of_run`: what a call with a timestamp does.
* `lifts_iff`, `last?_answerAll`: the calls that lift a pause, after which pacing begins anew.
* `contract_answerAll`: all of it, after any calls.
-/

namespace Famicom

namespace HostCall

variable {T C A D : Type}

/-- The calls by which a host runs frames, pauses and continues. -/
def Schedules : HostCall T C A D → Prop
  | frame _ | tick _ | pause | resume | togglePause => True
  | _ => False

/-- The calls with a timestamp. -/
def IsTick : HostCall T C A D → Prop
  | tick _ => True
  | _ => False

/-- The calls after which a console is not paused, whether it has been or not. -/
def Lifts (console : Console T C A D) : HostCall T C A D → Prop
  | resume | reset | powerOn | insertCartridge _ => True
  | togglePause => console.paused = true
  | _ => False

end HostCall

namespace Console

variable {T C A D S : Type} [Time T] [Cartridge C] [Apu A] [Controller D] [VideoSink S]
  {console start : Console T C A D}

/-- A call shows some pictures: whatever the sink is, it takes these, one after the other, and
nothing else. -/
def Shows (console : Console T C A D) (call : HostCall T C A D) (pictures : List Frame) : Prop :=
  ∀ {S : Type} [VideoSink S] (sink : S),
    (console.answer sink call).2 = pictures.foldl VideoSink.present sink

/-! ## Calls with a timestamp -/

theorem tick_of_paused (h : console.paused = true) (now : T) (sink : S) :
    console.tick now sink = (.ok .skip, console, sink) := by
  unfold tick
  rw [if_pos h]

/-- Where the pacer does not ask for frames, the console is at most paused. -/
theorem tick_of_idle (hrunning : console.paused = false) {now : T} {pacer : Pacer T}
    {result : Except PacingError PaceDecision} (h : console.pacer.tick now = (result, pacer))
    (hidle : ∀ dropped, result ≠ .ok (.run dropped)) (sink : S) :
    console.tick now sink =
      (result, { console with pacer, paused := decide (result = .ok .pause) }, sink) := by
  unfold tick
  rw [hrunning, h]
  rcases result with error | decision
  · simp [← hrunning]
  · cases decision with
    | skip => simp [← hrunning]
    | pause => rfl
    | run dropped => exact absurd rfl (hidle dropped)

theorem tick_of_run (hrunning : console.paused = false) {now : T} {pacer : Pacer T}
    {dropped : UInt32} (h : console.pacer.tick now = (.ok (.run dropped), pacer)) (sink : S) :
    console.tick now sink =
      (.ok (.run dropped),
        (Nat.repeat runUnpainted dropped.toNat { console with pacer }).runFrame sink) := by
  unfold tick
  rw [hrunning, h]
  rfl

/-- What comes of a call with a timestamp does not depend on the sink. -/
theorem tick_fst (console : Console T C A D) (now : T) (sink : S) :
    (console.tick now sink).1 =
      if console.paused then .ok .skip else (console.pacer.tick now).1 := by
  cases hpaused : console.paused with
  | true =>
    rw [tick_of_paused hpaused]
    rfl
  | false =>
    rcases h : console.pacer.tick now with ⟨result, pacer⟩
    by_cases hrun : ∃ dropped, result = .ok (.run dropped)
    · obtain ⟨dropped, rfl⟩ := hrun
      rw [tick_of_run hpaused h]
      rfl
    · rw [tick_of_idle hpaused h (not_exists.mp hrun)]
      rfl

/-! ## Frames since power-on -/

/-- A console like `start` after some frames, however paced. -/
def Played (start console : Console T C A D) : Prop :=
  ∃ n pacer paused, console = { Nat.repeat runUnpainted n start with pacer, paused }

namespace Played

theorem refl (start : Console T C A D) : start.Played start := ⟨0, _, _, rfl⟩

theorem pacing (h : start.Played console) (pacer : Pacer T) (paused : Bool) :
    start.Played { console with pacer, paused } := by
  obtain ⟨n, _, _, rfl⟩ := h
  exact ⟨n, pacer, paused, rfl⟩

theorem runUnpainted (h : start.Played console) : start.Played console.runUnpainted := by
  obtain ⟨n, pacer, paused, rfl⟩ := h
  rw [runUnpainted_pacing]
  exact ⟨n + 1, pacer, paused, rfl⟩

theorem runFrames (h : start.Played console) (n : Nat) :
    start.Played (Nat.repeat Console.runUnpainted n console) := by
  induction n with
  | zero => exact h
  | succ n ih => exact ih.runUnpainted

/-- A call that schedules runs some frames, or none. -/
theorem answer (h : start.Played console) {call : HostCall T C A D} (hcall : call.Schedules)
    (sink : S) : start.Played (console.answer sink call).1 := by
  cases call with
  | frame call =>
    unfold Console.answer
    rw [runCall_fst]
    exact h.runUnpainted
  | tick now =>
    show start.Played (console.tick now sink).2.1
    cases hpaused : console.paused with
    | true =>
      rw [tick_of_paused hpaused]
      exact h
    | false =>
      rcases htick : console.pacer.tick now with ⟨result, pacer⟩
      by_cases hrun : ∃ dropped, result = .ok (.run dropped)
      · obtain ⟨dropped, rfl⟩ := hrun
        rw [tick_of_run hpaused htick]
        exact ((h.pacing pacer console.paused).runFrames dropped.toNat).runUnpainted
      · rw [tick_of_idle hpaused htick (not_exists.mp hrun)]
        exact h.pacing pacer _
  | pause => exact h.pacing console.pacer true
  | resume => exact h.pacing console.pacer.resume false
  | togglePause =>
    show start.Played console.togglePause
    unfold togglePause
    split
    · exact h.pacing console.pacer.resume false
    · exact h.pacing console.pacer true
  | _ => exact hcall.elim

theorem answerAll (h : start.Played console) {calls : List (HostCall T C A D)}
    (hcalls : ∀ call ∈ calls, call.Schedules) (sink : S) :
    start.Played (console.answerAll sink calls).1 := by
  induction calls generalizing console sink with
  | nil => exact h
  | cons call calls ih =>
    have hfirst := h.answer (hcalls call (List.mem_cons_self ..)) sink
    exact ih hfirst (fun later hlater => hcalls later (.tail _ hlater)) _

/-- What every frame keeps is kept, if it does not depend on the pacing. -/
theorem keeps {P : Console T C A D → Prop} (h : start.Played console)
    (frame : ∀ console, P console → P console.runUnpainted)
    (pacing : ∀ console pacer paused, P console → P { console with pacer, paused })
    (hstart : P start) : P console := by
  obtain ⟨n, pacer, paused, rfl⟩ := h
  refine pacing _ pacer paused ?_
  induction n with
  | zero => exact hstart
  | succ n ih => exact frame _ ih

end Played

/-- What holds of the picture unit after power-on, and is kept by frames, by resets and by the
choice of a standard, holds whenever a host looks. -/
theorem Reachable.ppu_induction {P : Ppu → Prop} (powerOn : ∀ standard, P (.powerOn standard))
    (reset : ∀ ppu, P ppu → P ppu.reset)
    (setStandard : ∀ ppu standard, P ppu → P { ppu with standard })
    (frame : ∀ console : Console T C A D, P console.bus.ppu → P console.runUnpainted.bus.ppu)
    (h : console.Reachable) : P console.bus.ppu := by
  induction h with
  | new cartridge apu socket1 socket2 config => exact powerOn config.timing.standard
  | @answer S _ console sink call _ ih =>
    by_cases hcall : call.Schedules
    · exact ((Played.refl console).answer hcall sink).keeps
        (P := fun later => P later.bus.ppu) frame (fun _ _ _ hlater => hlater) ih
    cases call with
    | powerOn => exact powerOn console.config.timing.standard
    | insertCartridge cartridge => exact powerOn console.config.timing.standard
    | reset => exact reset _ ih
    | setConfig config => exact setStandard _ _ ih
    | setApu apu => exact ih
    | plug socket device => cases socket <;> exact ih
    | _ => exact absurd trivial hcall

theorem frameCount_repeat (console : Console T C A D) (n : Nat) :
    (Nat.repeat runUnpainted n console).frameCount = console.frameCount + n := by
  induction n with
  | zero => rfl
  | succ n ih =>
    rw [Nat.repeat, frameCount_runUnpainted, ih]
    rfl

/-- The frames since power-on are those that the console has counted. -/
theorem Played.eq_repeat (h : start.Played console) (hstart : start.frameCount = 0) :
    console = { Nat.repeat Console.runUnpainted console.frameCount start with
      pacer := console.pacer, paused := console.paused } := by
  obtain ⟨n, pacer, paused, hplayed⟩ := h
  have hcount : console.frameCount = n := by
    rw [hplayed]
    exact (start.frameCount_repeat n).trans (by rw [hstart, Nat.zero_add])
  rw [hcount, hplayed]

/-! ## The frames of a call -/

/-- The consoles with which the frames of a call begin. -/
def frameHeads (console : Console T C A D) : HostCall T C A D → List (Console T C A D)
  | .frame _ => [console]
  | .tick now =>
    match console.paused, console.pacer.tick now with
    | false, (.ok (.run dropped), pacer) =>
      (List.range (dropped.toNat + 1)).map (Nat.repeat runUnpainted · { console with pacer })
    | _, _ => []
  | _ => []

/-- A call that schedules runs its frames one after the other, and nothing else but pacing. -/
theorem exists_frames (console : Console T C A D) {call : HostCall T C A D}
    (hcall : call.Schedules) (sink : S) :
    ∃ n pacer,
      console.frameHeads call =
        (List.range n).map (Nat.repeat runUnpainted · { console with pacer }) ∧
      ∃ pacer' paused, (console.answer sink call).1 =
        { Nat.repeat runUnpainted n { console with pacer } with pacer := pacer', paused } := by
  cases call with
  | frame call =>
    have hframe : (console.answer sink (.frame call)).1 = console.runUnpainted :=
      console.runCall_fst sink call
    exact ⟨1, console.pacer, rfl, console.runUnpainted.pacer, console.runUnpainted.paused, hframe⟩
  | tick now =>
    show ∃ n pacer, _ ∧ ∃ pacer' paused, (console.tick now sink).2.1 = _
    obtain hpaused | hrunning := Bool.eq_false_or_eq_true console.paused
    · have hheads : console.frameHeads (.tick now) = [] := by simp [frameHeads, hpaused]
      rw [tick_of_paused hpaused, hheads]
      exact ⟨0, console.pacer, rfl, console.pacer, console.paused, rfl⟩
    rcases htick : console.pacer.tick now with ⟨result, pacer⟩
    by_cases hrun : ∃ dropped, result = .ok (.run dropped)
    · obtain ⟨dropped, rfl⟩ := hrun
      have hheads : console.frameHeads (.tick now) = (List.range (dropped.toNat + 1)).map
          (Nat.repeat runUnpainted · { console with pacer }) := by
        simp only [frameHeads, hrunning, htick]
      rw [tick_of_run hrunning htick, hheads]
      refine ⟨dropped.toNat + 1, pacer, rfl, ?_⟩
      generalize { console with pacer } = ready
      exact ⟨_, _, rfl⟩
    · have hheads : console.frameHeads (.tick now) = [] := by
        simp only [frameHeads, hrunning, htick]
        split
        · next heq => exact absurd ⟨_, congrArg Prod.fst heq⟩ hrun
        · rfl
      rw [tick_of_idle hrunning htick (not_exists.mp hrun), hheads]
      exact ⟨0, pacer, rfl, pacer, _, rfl⟩
  | pause => exact ⟨0, console.pacer, rfl, console.pacer, true, rfl⟩
  | resume => exact ⟨0, console.pacer, rfl, console.pacer.resume, false, rfl⟩
  | togglePause =>
    refine ⟨0, console.pacer, rfl, console.togglePause.pacer, console.togglePause.paused, ?_⟩
    show console.togglePause = _
    unfold togglePause
    split <;> rfl
  | _ => exact hcall.elim

/-- Every frame of a call begins with a console that has run the frames before it. -/
theorem Played.of_mem_frameHeads {call : HostCall T C A D} {head : Console T C A D}
    (h : head ∈ console.frameHeads call) : console.Played head := by
  cases call with
  | frame call =>
    rw [List.mem_singleton.mp h]
    exact .refl console
  | tick now =>
    simp only [frameHeads] at h
    split at h
    · next pacer _ _ =>
      obtain ⟨n, -, rfl⟩ := List.mem_map.mp h
      exact ((Played.refl console).pacing pacer console.paused).runFrames n
    · cases h
  | _ => cases h

/-! ## Lifting a pause -/

/-- Just these calls lift the pause of a paused console. -/
theorem lifts_iff (h : console.paused = true) (call : HostCall T C A D) (sink : S) :
    (console.answer sink call).1.paused = false ↔ call.Lifts console := by
  cases call with
  | frame call =>
    unfold answer HostCall.Lifts
    rw [runCall_fst, console.pacing_runUnpainted.2, h]
    simp
  | tick now =>
    show (console.tick now sink).2.1.paused = false ↔ False
    rw [tick_of_paused h, h]
    simp
  | togglePause =>
    show console.togglePause.paused = false ↔ console.paused = true
    unfold togglePause
    rw [if_pos h]
    exact ⟨fun _ => h, fun _ => rfl⟩
  | pause => exact ⟨Bool.noConfusion, False.elim⟩
  | plug socket device =>
    show console.paused = false ↔ False
    simp [h]
  | setApu apu =>
    show console.paused = false ↔ False
    simp [h]
  | setConfig config =>
    show console.paused = false ↔ False
    simp [h]
  | _ => exact ⟨fun _ => trivial, fun _ => rfl⟩

/-- Whoever lifts a pause forgets the last timestamp. -/
theorem last?_of_lifts {call : HostCall T C A D} (h : call.Lifts console) (sink : S) :
    (console.answer sink call).1.paused = false ∧
      (console.answer sink call).1.pacer.last? = none := by
  cases call with
  | togglePause =>
    have hpaused : console.paused = true := h
    show console.togglePause.paused = false ∧ console.togglePause.pacer.last? = none
    unfold togglePause
    rw [if_pos hpaused]
    exact ⟨rfl, rfl⟩
  | resume => exact ⟨rfl, rfl⟩
  | reset => exact ⟨rfl, rfl⟩
  | powerOn => exact ⟨rfl, rfl⟩
  | insertCartridge cartridge => exact ⟨rfl, rfl⟩
  | _ => exact h.elim

/-- Until the next call with a timestamp, the pacer remembers none. -/
theorem last?_answerAll (h : console.pacer.last? = none) {calls : List (HostCall T C A D)}
    (hcalls : ∀ call ∈ calls, call.Schedules ∧ ¬ call.IsTick) (sink : S) :
    (console.answerAll sink calls).1.pacer.last? = none := by
  induction calls generalizing console sink with
  | nil => exact h
  | cons call calls ih =>
    obtain ⟨hschedules, huntimed⟩ := hcalls call (List.mem_cons_self ..)
    refine ih ?_ (fun later hlater => hcalls later (.tail _ hlater)) _
    cases call with
    | frame call =>
      unfold answer
      rw [runCall_fst, console.pacing_runUnpainted.1]
      exact h
    | tick now => exact absurd trivial huntimed
    | pause => exact h
    | resume => rfl
    | togglePause =>
      show console.togglePause.pacer.last? = none
      unfold togglePause
      split
      · rfl
      · exact h
    | _ => exact hschedules.elim

/-! ## The contract -/

/-- What a host can rely on when it schedules: `start` is the console after power-on, `console` and
`sink` are what the calls since then have led to. -/
structure Contract (start console : Console T C A D) (sink : S) : Prop where
  /-- Processor, bus and phase are those of a console that has run its frames one by one, without
  painting, dropping or pausing. -/
  played : let plain := Nat.repeat runUnpainted console.frameCount start
    console.cpu = plain.cpu ∧ console.bus = plain.bus ∧ console.phase = plain.phase
  /-- A decision to run counts each frame that it asks for, and shows one. -/
  run : ∀ now dropped, (console.tick now sink).1 = .ok (.run dropped) →
    (console.tick now sink).2.1.frameCount = console.frameCount + (dropped.toNat + 1) ∧
      ∃ picture, console.Shows (.tick now) [picture]
  /-- A painted frame shows one picture. -/
  painted : ∃ picture, console.Shows (.frame .painted) [picture]
  /-- An unpainted frame shows none. -/
  unpainted : console.Shows (.frame .unpainted) []
  /-- Any other decision runs nothing and shows nothing, and so does a call that fails. -/
  idle : ∀ now, (∀ dropped, (console.tick now sink).1 ≠ .ok (.run dropped)) →
    let later := (console.tick now sink).2.1
    later.cpu = console.cpu ∧ later.bus = console.bus ∧ later.phase = console.phase ∧
      later.frameCount = console.frameCount ∧ console.Shows (.tick now) []
  /-- While the console is paused, nothing at all happens. -/
  paused : console.paused = true → ∀ now, console.tick now sink = (.ok .skip, console, sink)
  /-- The calls that lift a pause. -/
  lifts : console.paused = true → ∀ call,
    ((console.answer sink call).1.paused = false ↔ call.Lifts console)
  /-- The first call with a timestamp after one of them asks for a single frame, whatever the
  timestamp. It is ignored only if the host has paused the console again by then. -/
  fresh : ∀ lift : HostCall T C A D, lift.Lifts console →
    (console.answer sink lift).1.paused = false ∧
      ∀ calls, (∀ call ∈ calls, call.Schedules ∧ ¬ call.IsTick) → ∀ now,
        let later := console.answerAll sink (lift :: calls)
        (later.1.tick now later.2).1 = .ok (if later.1.paused then .skip else .run 0)

/-- However many frames a decision drops, it counts them all and shows the last one. -/
theorem run_of_tick {now : T} {sink : S} {dropped : UInt32}
    (h : (console.tick now sink).1 = .ok (.run dropped)) :
    (console.tick now sink).2.1.frameCount = console.frameCount + (dropped.toNat + 1) ∧
      ∃ picture, console.Shows (.tick now) [picture] := by
  rw [tick_fst] at h
  cases hpaused : console.paused with
  | true => simp [hpaused] at h
  | false =>
    rcases htick : console.pacer.tick now with ⟨result, pacer⟩
    obtain rfl : result = .ok (.run dropped) := by simpa [hpaused, htick] using h
    constructor
    · rw [tick_of_run hpaused htick]
      show (Nat.repeat runUnpainted dropped.toNat _).runUnpainted.frameCount = _
      rw [frameCount_runUnpainted, frameCount_repeat]
      rfl
    · refine ⟨(Nat.repeat runUnpainted dropped.toNat
        { console with pacer }).runPicture.bus.ppu.frame, ?_⟩
      intro S _ sink
      show (console.tick now sink).2.2 = _
      rw [tick_of_run hpaused htick]
      rfl

/-- A call that asks for no frame concerns the pacing alone, and shows nothing. -/
theorem idle_of_tick {now : T} {sink : S}
    (h : ∀ dropped, (console.tick now sink).1 ≠ .ok (.run dropped)) :
    (∃ pacer paused, (console.tick now sink).2.1 = { console with pacer, paused }) ∧
      console.Shows (.tick now) [] := by
  rw [tick_fst] at h
  cases hpaused : console.paused with
  | true =>
    refine ⟨⟨console.pacer, console.paused, ?_⟩, ?_⟩
    · rw [tick_of_paused hpaused]
    · intro S _ sink
      show (console.tick now sink).2.2 = sink
      rw [tick_of_paused hpaused]
  | false =>
    rcases htick : console.pacer.tick now with ⟨result, pacer⟩
    have hidle : ∀ dropped, result ≠ .ok (.run dropped) := by simpa [hpaused, htick] using h
    refine ⟨⟨pacer, decide (result = .ok .pause), ?_⟩, ?_⟩
    · rw [tick_of_idle hpaused htick hidle]
    · intro S _ sink
      show (console.tick now sink).2.2 = sink
      rw [tick_of_idle hpaused htick hidle]

/-- A pacer that remembers no timestamp asks for a single frame. -/
theorem tick_of_fresh (h : console.pacer.last? = none) (now : T) (sink : S) :
    (console.tick now sink).1 = .ok (if console.paused then .skip else .run 0) := by
  rw [tick_fst]
  unfold Pacer.tick
  rw [h]
  split <;> rfl

/-- What holds of any console, whatever frames it has run. -/
theorem Played.contract (h : start.Played console) (hstart : start.frameCount = 0) (sink : S) :
    Contract start console sink where
  played := by
    have heq := h.eq_repeat hstart
    intro plain
    exact ⟨congrArg (·.cpu) heq, congrArg (·.bus) heq, congrArg (·.phase) heq⟩
  run _ _ hrun := run_of_tick hrun
  painted := ⟨console.runPicture.bus.ppu.frame, fun _ => rfl⟩
  unpainted _ := rfl
  idle now hidle := by
    obtain ⟨⟨pacer, paused, hlater⟩, hshows⟩ := idle_of_tick hidle
    intro later
    have heq : later = { console with pacer, paused } := hlater
    rw [heq]
    exact ⟨rfl, rfl, rfl, rfl, hshows⟩
  paused hpaused now := tick_of_paused hpaused now sink
  lifts hpaused call := lifts_iff hpaused call sink
  fresh lift hlift := by
    -- Whoever lifts the pause lets the pacer forget, and only a call with a timestamp reminds it.
    obtain ⟨hlifted, hlast⟩ := last?_of_lifts hlift sink
    refine ⟨hlifted, ?_⟩
    intro calls hcalls now later
    exact tick_of_fresh (last?_answerAll hlast hcalls _) now later.2

/-- Scheduling changes nothing but when frames are run and which of them are shown: after any calls
that schedule, in any order and with any timestamps, a host can rely on the contract. -/
theorem contract_answerAll (origin : Console T C A D) (sink : S) (calls : List (HostCall T C A D))
    (hcalls : ∀ call ∈ calls, call.Schedules) :
    let (console, shown) := origin.powerOn.answerAll sink calls
    Contract origin.powerOn console shown := by
  have hplayed := (Played.refl origin.powerOn).answerAll hcalls sink
  exact hplayed.contract rfl _

/-- A console with nothing in its slot. -/
def slotless : Console ℚ EmptySlot SilentApu Unplugged := .new ⟨⟩ .new ⟨⟩ ⟨⟩ .default

/-- A host that pauses in the middle, and continues after a long time. -/
theorem contract_interrupted :
    let calls : List (HostCall ℚ EmptySlot SilentApu Unplugged) :=
      [.tick 0, .frame .painted, .pause, .tick 50]
    (∀ call ∈ calls, call.Schedules) ∧
      let (console, shown) := slotless.powerOn.answerAll CaptureSink.empty calls
      Contract slotless.powerOn console shown ∧
        ((console.answer shown .resume).1.tick 5000 shown).1 = .ok (.run 0) := by
  intro calls
  have hcalls : ∀ call ∈ calls, call.Schedules := by simp [calls, HostCall.Schedules]
  have hcontract := contract_answerAll slotless CaptureSink.empty calls hcalls
  generalize slotless.powerOn.answerAll CaptureSink.empty calls = result at hcontract ⊢
  obtain ⟨console, shown⟩ := result
  refine ⟨hcalls, hcontract, ?_⟩
  obtain ⟨-, hfresh⟩ := hcontract.fresh .resume trivial
  exact hfresh [] (by simp) 5000

end Console

end Famicom
