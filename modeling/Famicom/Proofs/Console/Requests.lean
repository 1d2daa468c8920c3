import Famicom.Proofs.Console.Acts
import Famicom.Proofs.Ppu.Calls
import Famicom.Proofs.Ppu.Pipeline

/-!
# What a frame asks of the picture unit

The console reaches its picture unit in two ways: the processor through the bus, and the schedule
through its steps. Both come down to requests to the unit, so that what holds of every sequence of
requests holds of frames.

* `Ppu.Served`: one state of the unit leads to another by requests of some kind.
* `Bus.keeps_served`: whatever the processor does is a sequence of accesses to the unit.
* `Console.served_act`, `Console.served_performAll`: an act and a list of acts make requests of
  certain kinds only.
-/

namespace Famicom

namespace Ppu

/-- A program's requests: reading and writing registers, copying to sprite memory, and answering the
interrupt. -/
def Call.IsAccess : Call → Prop
  | @Call.read .. | @Call.write .. | .writeOam _ | .takeNmi => True
  | _ => False

/-- A state of the unit leads to another by requests of a kind. -/
def Served (Q : Call → Prop) (ppu later : Ppu) : Prop :=
  ∃ calls, (∀ call ∈ calls, Q call) ∧ later = ppu.runAll calls

namespace Served

variable {Q Q' : Call → Prop} {ppu later last : Ppu}

theorem refl (Q : Call → Prop) (ppu : Ppu) : ppu.Served Q ppu := ⟨[], by simp, rfl⟩

theorem of_run (call : Call) (h : Q call) (ppu : Ppu) : ppu.Served Q (ppu.run call) :=
  ⟨[call], by simpa using h, rfl⟩

theorem trans (h : ppu.Served Q later) (h' : later.Served Q last) : ppu.Served Q last := by
  obtain ⟨calls, hcalls, rfl⟩ := h
  obtain ⟨calls', hcalls', rfl⟩ := h'
  refine ⟨calls ++ calls', fun call hcall => ?_, List.foldl_append.symm⟩
  rcases List.mem_append.mp hcall with hcall | hcall
  · exact hcalls call hcall
  · exact hcalls' call hcall

theorem mono (h : ppu.Served Q later) (weaken : ∀ call, Q call → Q' call) :
    ppu.Served Q' later := by
  obtain ⟨calls, hcalls, heq⟩ := h
  exact ⟨calls, fun call hcall => weaken call (hcalls call hcall), heq⟩

/-- What requests of a kind keep is kept. -/
theorem keeps {P : Ppu → Prop} (h : ppu.Served Q later)
    (keep : ∀ ppu call, Q call → P ppu → P (ppu.run call)) (hp : P ppu) : P later := by
  obtain ⟨calls, hcalls, rfl⟩ := h
  exact List.foldlRecOn calls _ hp fun ppu hppu call hcall => keep ppu call (hcalls call hcall) hppu

end Served

end Ppu

/-! ## The processor -/

/-- Whatever the processor does to the unit, it does by accesses. -/
theorem Bus.keeps_served {C A D : Type} [Cartridge C] [Apu A] [Controller D] (given : Ppu) :
    Keeps (fun _ => True) fun bus : Bus C A D =>
      given.Served Ppu.Call.IsAccess bus.ppu where
  read bus address _ h := by
    show given.Served _ (bus.read address).2.ppu
    rcases bus.read_ppu address with hsame | hread
    · rwa [hsame]
    · rw [hread]
      exact h.trans (.of_run (.read bus.cartridge address) trivial bus.ppu)
  write bus address value _ h := by
    show given.Served _ (bus.write address value).ppu
    rcases bus.write_ppu address value with ⟨-, hsame⟩ | ⟨-, hwrite⟩
    · rwa [hsame]
    · rw [hwrite]
      exact h.trans (.of_run (.write bus.cartridge address value) trivial bus.ppu)
  clock _ _ h := h
  takeNmi bus h := h.trans (.of_run .takeNmi trivial bus.ppu)
  takeDmaRequest _ h := h
  writeOam bus value h := h.trans (.of_run (.writeOam value) trivial bus.ppu)

/-! ## The schedule -/

/-- The requests that a step makes, with the cartridge that they reach. -/
def PpuStep.calls {C : Type} [Cartridge C] (step : PpuStep) (cartridge : C) : List Ppu.Call :=
  match step with
  | clearSecondaryOam => [.clearSecondaryOam]
  | searchSprites line => [.searchSprites (UInt16.ofNat line)]
  | drawTile line tile => [.drawTile line tile]
  | fetchColumn => [.fetchTile cartridge, .nextColumn]
  | nextRow => [.nextRow, .reloadColumn]
  | fetchSprite slot => [.fetchSprite cartridge slot]
  | reloadRow => [.reloadRow]
  | clearSpriteLine => [.clearSpriteLine]

theorem PpuStep.run_eq_runAll {C : Type} [Cartridge C] (step : PpuStep) (ppu : Ppu)
    (cartridge : C) : (step.run ppu cartridge).1 = ppu.runAll (step.calls cartridge) := by
  cases step <;> rfl

/-- The kinds of requests that an act makes. -/
def FrameAct.Requests {T : Type} (C : Type) [Cartridge C] (call : Ppu.Call) : FrameAct T → Prop
  | runCpu _ | answerNmi => call.IsAccess
  | perform _ event => ∃ cartridge : C, call ∈ event.step.calls cartridge
  | beginVblank => call = .beginVblank
  | endVblank => call = .endVblank
  | enter _ | close => False

namespace Console

variable {T C A D : Type} [Time T] [Cartridge C] [Apu A] [Controller D]

theorem served_act (console : Console T C A D) (a : FrameAct T) :
    console.bus.ppu.Served (fun call => a.Requests C call) (console.act a).bus.ppu := by
  have hserved := Bus.keeps_served (C := C) (A := A) (D := D) console.bus.ppu
  have hrefl := Ppu.Served.refl Ppu.Call.IsAccess console.bus.ppu
  cases a with
  | enter phase => exact .refl _ _
  | runCpu limit => exact hserved.runTo console.cpu hrefl fun _ _ => trivial
  | answerNmi => exact hserved.answerNmi console.cpu hrefl fun _ _ => trivial
  | perform line event =>
    refine ⟨event.step.calls console.bus.cartridge, fun call hcall => ⟨_, hcall⟩, ?_⟩
    exact event.step.run_eq_runAll _ _
  | beginVblank => exact ⟨[.beginVblank], by simp [FrameAct.Requests], rfl⟩
  | endVblank => exact ⟨[.endVblank], by simp [FrameAct.Requests], rfl⟩
  | close => exact .refl _ _

/-- Some acts make requests of a kind, if each of them does. -/
theorem served_performAll {Q : Ppu.Call → Prop} {acts : List (FrameAct T)}
    (h : ∀ a ∈ acts, ∀ call, a.Requests C call → Q call) (console : Console T C A D) :
    console.bus.ppu.Served Q (console.performAll acts).bus.ppu :=
  performAll_induction (P := fun later => console.bus.ppu.Served Q later.bus.ppu)
    (fun a ha later hlater => hlater.trans ((later.served_act a).mono (h a ha))) (.refl _ _)

end Console

end Famicom
