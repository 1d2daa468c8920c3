import Famicom.Proofs.Console.Configured
import Famicom.Proofs.Console.Scheduling

/-!
# Switching off and on

Nothing that a console has done before survives its being switched off and on, but for what is not
its own: the cartridge, the sound unit, the devices in the sockets and the configuration. The pacer
goes on counting the frames that it has dropped, and only hosts look at that count.

* `powerOn_eq_new`: a console that is switched on is like one that has just been built.
* `runsAlike_answerAll`: consoles that differ in that count run alike, whatever a host asks for.
* `powerOn_forgets`: so the past of a console does not matter, once it has been switched off and on.
-/

namespace Famicom

/-- How many frames have been dropped has no influence on what a pacer decides. -/
theorem Pacer.tick_droppedTotal {T : Type} [Time T] (pacer : Pacer T) (n : Nat) (now : T) :
    ∃ m, { pacer with droppedTotal := n }.tick now =
      ((pacer.tick now).1, { (pacer.tick now).2 with droppedTotal := m }) := by
  unfold tick
  cases pacer.last? with
  | none => exact ⟨n, rfl⟩
  | some last =>
    dsimp only
    unfold decide
    split
    · exact ⟨n, rfl⟩
    split
    · exact ⟨n, rfl⟩
    split
    · exact ⟨n, rfl⟩
    · exact ⟨_, rfl⟩

namespace Console

variable {T C A D S : Type} [Time T] [Cartridge C] [Apu A] [Controller D] [VideoSink S]
  {console other : Console T C A D}

/-! ## Power-on -/

/-- A console that is switched on is like one that has just been built from what it is connected to
and the configuration; only the count of dropped frames is its own. -/
theorem powerOn_eq_new (h : console.Configured) :
    console.powerOn =
      { Console.new console.bus.cartridge console.bus.apu console.bus.socket1 console.bus.socket2
          console.config with
        pacer.droppedTotal := console.pacer.droppedTotal } := by
  obtain ⟨cpu, bus, config, pacer, phase, frameCount, paused⟩ := console
  obtain ⟨last?, lag, timing, droppedTotal⟩ := pacer
  obtain ⟨hjam, htiming⟩ := h
  dsimp only at hjam htiming
  subst htiming
  unfold Console.new applyConfig powerOn Cpu.powerOn
  rw [hjam]
  rfl

/-- Switching on reads where the program starts. -/
theorem cartridge_powerOn (console : Console T C A D)
    (pure : ∀ (cartridge : C) address, (Cartridge.cpuRead cartridge address).2 = cartridge) :
    console.powerOn.bus.cartridge = console.bus.cartridge := by
  show (Cartridge.cpuRead (Cartridge.cpuRead console.bus.cartridge Interrupt.resetVector).2
    (Interrupt.resetVector + 1)).2 = _
  rw [pure, pure]

/-! ## Running alike -/

/-- Consoles that differ at most in the count of dropped frames. -/
def RunsAlike (console other : Console T C A D) : Prop :=
  ∃ n, other = { console with pacer.droppedTotal := n }

theorem lockstep_runsAlike : Lockstep (RunsAlike : Console T C A D → _ → Prop) where
  rendering := by
    rintro console _ ⟨n, rfl⟩
    rfl
  act := by
    rintro console _ ⟨n, rfl⟩ a
    exact ⟨n, by cases a <;> rfl⟩

theorem RunsAlike.runFrames (h : console.RunsAlike other) (n : Nat) :
    (Nat.repeat runUnpainted n console).RunsAlike (Nat.repeat runUnpainted n other) := by
  induction n with
  | zero => exact h
  | succ n ih => exact lockstep_runsAlike.runUnpainted ih

theorem RunsAlike.runCall (h : console.RunsAlike other) (sink : S) (call : FrameCall) :
    (console.runCall sink call).1.RunsAlike (other.runCall sink call).1 ∧
      (console.runCall sink call).2 = (other.runCall sink call).2 := by
  refine lockstep_runsAlike.runCall ?_ h sink call
  rintro console _ ⟨n, rfl⟩
  rfl

/-- A call with a timestamp decides the same, and shows the same. -/
theorem RunsAlike.tick (h : console.RunsAlike other) (now : T) (sink : S) :
    (console.tick now sink).1 = (other.tick now sink).1 ∧
      (console.tick now sink).2.1.RunsAlike (other.tick now sink).2.1 ∧
      (console.tick now sink).2.2 = (other.tick now sink).2.2 := by
  obtain ⟨n, hother⟩ := h
  have hsame : other.paused = console.paused := by rw [hother]
  cases hpaused : console.paused with
  | true =>
    rw [tick_of_paused hpaused, tick_of_paused (hsame.trans hpaused)]
    exact ⟨rfl, ⟨n, hother⟩, rfl⟩
  | false =>
    have hrunning : other.paused = false := hsame.trans hpaused
    obtain ⟨m, hpacer⟩ := console.pacer.tick_droppedTotal n now
    rcases htick : console.pacer.tick now with ⟨result, pacer⟩
    have htick' : other.pacer.tick now = (result, { pacer with droppedTotal := m }) := by
      rw [hother]
      exact hpacer.trans (by rw [htick])
    have hready : RunsAlike { console with pacer }
        { other with pacer := { pacer with droppedTotal := m } } := ⟨m, by rw [hother]⟩
    by_cases hrun : ∃ dropped, result = .ok (.run dropped)
    · obtain ⟨dropped, rfl⟩ := hrun
      rw [tick_of_run hpaused htick, tick_of_run hrunning htick']
      obtain ⟨hlater, hshown⟩ := (hready.runFrames dropped.toNat).runCall sink .painted
      exact ⟨rfl, hlater, hshown⟩
    · have hidle := not_exists.mp hrun
      rw [tick_of_idle hpaused htick hidle, tick_of_idle hrunning htick' hidle]
      exact ⟨rfl, ⟨m, by rw [hother]⟩, rfl⟩

theorem RunsAlike.answer (h : console.RunsAlike other) (sink : S) (call : HostCall T C A D) :
    (console.answer sink call).1.RunsAlike (other.answer sink call).1 ∧
      (console.answer sink call).2 = (other.answer sink call).2 := by
  cases call with
  | frame call => exact h.runCall sink call
  | tick now => exact (h.tick now sink).2
  | togglePause =>
    obtain ⟨n, rfl⟩ := h
    refine ⟨?_, rfl⟩
    show console.togglePause.RunsAlike (togglePause _)
    unfold togglePause
    cases console.paused <;> exact ⟨n, rfl⟩
  | plug socket device =>
    obtain ⟨n, rfl⟩ := h
    exact ⟨⟨n, rfl⟩, rfl⟩
  | setConfig config =>
    -- A new configuration brings a new pacer, so from here on even the counts agree.
    obtain ⟨n, rfl⟩ := h
    exact ⟨⟨0, rfl⟩, rfl⟩
  | _ =>
    obtain ⟨n, rfl⟩ := h
    exact ⟨⟨n, rfl⟩, rfl⟩

/-- Consoles that differ in the count of dropped frames run alike, whatever a host asks for. -/
theorem runsAlike_answerAll (h : console.RunsAlike other) (sink : S)
    (calls : List (HostCall T C A D)) :
    (console.answerAll sink calls).1.RunsAlike (other.answerAll sink calls).1 ∧
      (console.answerAll sink calls).2 = (other.answerAll sink calls).2 := by
  induction calls generalizing console other sink with
  | nil => exact ⟨h, rfl⟩
  | cons call calls ih =>
    obtain ⟨hlater, hshown⟩ := h.answer sink call
    simp only [answerAll]
    rw [hshown]
    exact ih hlater _

/-- A console that is switched off and on forgets its past: except for the count of dropped frames
it is a console that has just been built from what it is connected to, whatever a host has asked of
it before. A board on which reading changes nothing is then still in the state in which it was. So
two consoles that are connected to the same and have one configuration run alike from then on,
whatever is asked of them: they decide the same, show the same, and differ in that count only. -/
theorem powerOn_forgets (h : console.Reachable) :
    console.powerOn =
        { Console.new console.bus.cartridge console.bus.apu console.bus.socket1 console.bus.socket2
            console.config with
          pacer.droppedTotal := console.pacer.droppedTotal } ∧
    ((∀ (cartridge : C) address, (Cartridge.cpuRead cartridge address).2 = cartridge) →
      console.powerOn.bus.cartridge = console.bus.cartridge) ∧
    ∀ other : Console T C A D, other.Reachable →
      other.bus.cartridge = console.bus.cartridge → other.bus.apu = console.bus.apu →
      other.bus.socket1 = console.bus.socket1 → other.bus.socket2 = console.bus.socket2 →
      other.config = console.config →
      ∀ (sink : S) (calls : List (HostCall T C A D)),
        let (later, shown) := console.powerOn.answerAll sink calls
        let (later', shown') := other.powerOn.answerAll sink calls
        (∃ n, later' = { later with pacer.droppedTotal := n }) ∧ shown = shown' ∧
          ∀ now, (later.tick now shown).1 = (later'.tick now shown').1 := by
  have hnew := powerOn_eq_new h.configured
  refine ⟨hnew, console.cartridge_powerOn, ?_⟩
  intro other hother hcartridge hapu hsocket1 hsocket2 hconfig sink calls
  have hnew' := powerOn_eq_new hother.configured
  rw [hcartridge, hapu, hsocket1, hsocket2, hconfig] at hnew'
  have halike : console.powerOn.RunsAlike other.powerOn :=
    ⟨other.pacer.droppedTotal, by rw [hnew, hnew']⟩
  obtain ⟨hlater, hshown⟩ := runsAlike_answerAll halike sink calls
  refine ⟨hlater, hshown, ?_⟩
  intro now
  have hdecision := (hlater.tick now (console.powerOn.answerAll sink calls).2).1
  rw [hdecision, hshown]

/-- A console that has run a frame, and whose sound unit and configuration have then been replaced,
runs like one that has never run. -/
theorem powerOn_forgets_frame :
    let played := (slotless.answerAll CaptureSink.empty
      [.frame .painted, .setApu .new, .setConfig .default]).1
    slotless.Reachable ∧ played.Reachable ∧ ∀ calls,
      (slotless.powerOn.answerAll CaptureSink.empty calls).2 =
        (played.powerOn.answerAll CaptureSink.empty calls).2 := by
  intro played
  have hnew : slotless.Reachable := by
    unfold slotless
    exact .new _ _ _ _ _
  have hplayed : played.Reachable := hnew.answerAll _ _
  have hslot : ∀ a b : EmptySlot, a = b := fun _ _ => rfl
  have hsocket : ∀ a b : Unplugged, a = b := fun _ _ => rfl
  have hapu : slotless.bus.apu = SilentApu.new := rfl
  have hconfig : slotless.config = Config.default := rfl
  refine ⟨hnew, hplayed, ?_⟩
  intro calls
  obtain ⟨-, -, halike⟩ := powerOn_forgets (S := CaptureSink) hnew
  have hrun := halike played hplayed (hslot _ _) hapu.symm (hsocket _ _) (hsocket _ _) hconfig.symm
    CaptureSink.empty calls
  exact hrun.2.1

end Console

end Famicom
