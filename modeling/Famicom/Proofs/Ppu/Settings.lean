import Famicom.Bus
import Famicom.Console.Schedule

/-!
# What steers the picture unit

A program steers the unit by what it writes: settings, scroll position, memories. The unit itself
only reads that. Here is what each register access and each step of the unit leaves alone, whatever
the cartridge.

* `SameSettings`: two states that agree in everything that only a program changes.
* `NotesMask`: what is noted about rendering is what the mask says.
* `PpuStep.run_settings_eq`, `PpuStep.run_cartridge`: a step of the unit changes no setting, and a
  board only by reading it.
* `Bus.read_steering`, `Bus.write_steering`: how an access of the processor steers a frame.
-/

namespace Famicom

/-- Two states of the picture unit that agree in everything that only a program changes, and in the
interrupt and the flag of vertical blanking. -/
structure Ppu.SameSettings (ppu later : Ppu) : Prop where
  control : later.control = ppu.control
  mask : later.mask = ppu.mask
  rendering : later.rendering = ppu.rendering
  oamAddress : later.oamAddress = ppu.oamAddress
  t : later.t = ppu.t
  fineX : later.fineX = ppu.fineX
  secondWrite : later.secondWrite = ppu.secondWrite
  ciram : later.ciram = ppu.ciram
  palette : later.palette = ppu.palette
  oam : later.oam = ppu.oam
  nmiPending : later.nmiPending = ppu.nmiPending
  vblank : later.status.vblank = ppu.status.vblank

/-- What is noted about rendering is what the mask says. -/
def Ppu.NotesMask (ppu : Ppu) : Prop := ppu.rendering = ppu.mask.rendering

theorem Ppu.SameSettings.notesMask {ppu later : Ppu} (h : ppu.SameSettings later)
    (hnoted : ppu.NotesMask) : later.NotesMask := by
  rw [NotesMask, h.rendering, h.mask, hnoted]

/-! ## Steps of the unit -/

section

variable {C : Type} [Cartridge C]

namespace Ppu

theorem SameSettings.refl (ppu : Ppu) : ppu.SameSettings ppu :=
  ⟨rfl, rfl, rfl, rfl, rfl, rfl, rfl, rfl, rfl, rfl, rfl, rfl⟩

/-- What reading does not change, a read of the unit does not change. -/
theorem readVram_cartridge {M : Type} {f : C → M}
    (h : ∀ cartridge address, f (Cartridge.ppuRead cartridge address).2 = f cartridge) (ppu : Ppu)
    (cartridge : C) (address : UInt16) : f (ppu.readVram cartridge address).2 = f cartridge := by
  unfold readVram
  dsimp only
  split
  · exact h _ _
  · split
    · split
      · rfl
      · exact h _ _
    · rfl

theorem drawSprite_cartridge {M : Type} {f : C → M}
    (h : ∀ cartridge address, f (Cartridge.ppuRead cartridge address).2 = f cartridge) (ppu : Ppu)
    (cartridge : C) (slot : Nat) (row : UInt16) :
    f (ppu.drawSprite cartridge slot row).2 = f cartridge := by
  unfold drawSprite
  dsimp only
  rw [readVram_cartridge h, readVram_cartridge h]

/-- A slot is either drawn into a sprite line or left out. -/
theorem fetchSprite_cases (ppu : Ppu) (cartridge : C) (slot : Nat) :
    ∃ fetching, (fetching = ppu ∨ fetching = ppu.clearSpriteLine) ∧
      (ppu.fetchSprite cartridge slot = (fetching, cartridge) ∨
        ∃ row, ppu.fetchSprite cartridge slot = fetching.drawSprite cartridge slot row) := by
  refine ⟨if slot = 0 then ppu.clearSpriteLine else ppu, ?_, ?_⟩
  · by_cases hfirst : slot = 0
    · exact .inr (if_pos hfirst)
    · exact .inl (if_neg hfirst)
  · unfold fetchSprite
    generalize (if slot = 0 then ppu.clearSpriteLine else ppu) = fetching
    dsimp only
    split
    · split
      · exact .inr ⟨_, rfl⟩
      · exact .inl rfl
    · exact .inl rfl

/-- Fetching a sprite changes the sprite line and nothing else. -/
theorem fetchSprite_changes (ppu : Ppu) (cartridge : C) (slot : Nat) :
    (ppu.fetchSprite cartridge slot).1 =
      { ppu with spriteLine := (ppu.fetchSprite cartridge slot).1.spriteLine } := by
  obtain ⟨fetching, hfetching, hfetch⟩ := ppu.fetchSprite_cases cartridge slot
  rcases hfetch with hfetch | ⟨row, hfetch⟩
  · rw [hfetch]
    rcases hfetching with rfl | rfl <;> rfl
  · rw [hfetch]
    rcases hfetching with rfl | rfl <;> rfl

theorem fetchSprite_settings (ppu : Ppu) (cartridge : C) (slot : Nat) :
    ppu.SameSettings (ppu.fetchSprite cartridge slot).1 := by
  rw [fetchSprite_changes]
  exact { SameSettings.refl ppu with }

theorem fetchSprite_cartridge {M : Type} {f : C → M}
    (h : ∀ cartridge address, f (Cartridge.ppuRead cartridge address).2 = f cartridge) (ppu : Ppu)
    (cartridge : C) (slot : Nat) : f (ppu.fetchSprite cartridge slot).2 = f cartridge := by
  obtain ⟨fetching, -, hfetch | ⟨row, hfetch⟩⟩ := ppu.fetchSprite_cases cartridge slot
  · rw [hfetch]
  · rw [hfetch, drawSprite_cartridge h]

end Ppu

/-- No step of the unit changes what only a program changes. -/
theorem PpuStep.run_settings_eq (step : PpuStep) (ppu : Ppu) (cartridge : C) :
    ppu.SameSettings (step.run ppu cartridge).1 := by
  cases step with
  | fetchSprite slot => exact ppu.fetchSprite_settings cartridge slot
  | _ => exact ⟨rfl, rfl, rfl, rfl, rfl, rfl, rfl, rfl, rfl, rfl, rfl, rfl⟩

/-- What reading a board does not change, no step of the unit changes. -/
theorem PpuStep.run_cartridge {M : Type} {f : C → M}
    (h : ∀ cartridge address, f (Cartridge.ppuRead cartridge address).2 = f cartridge)
    (step : PpuStep) (ppu : Ppu) (cartridge : C) : f (step.run ppu cartridge).2 = f cartridge := by
  have hread := fun (unit : Ppu) c address => unit.readVram_cartridge h c address
  cases step with
  | fetchColumn => simp only [run, Ppu.fetchColumn, Ppu.fetchTile, hread]
  | fetchSprite slot => exact ppu.fetchSprite_cartridge h cartridge slot
  | _ => rfl

/-! ## Accesses of the processor -/

/-- Two states of the unit between which its settings and the pending interrupt stay; the flag of
vertical blanking may fall. -/
structure Ppu.SameSteering (ppu later : Ppu) : Prop where
  control : later.control = ppu.control
  mask : later.mask = ppu.mask
  rendering : later.rendering = ppu.rendering
  nmiPending : later.nmiPending = ppu.nmiPending
  vblank : later.status.vblank = true → ppu.status.vblank = true

namespace Ppu

theorem SameSteering.refl (ppu : Ppu) : ppu.SameSteering ppu := ⟨rfl, rfl, rfl, rfl, id⟩

theorem SameSteering.notesMask {ppu later : Ppu} (h : ppu.SameSteering later)
    (hnoted : ppu.NotesMask) : later.NotesMask := by
  rw [NotesMask, h.rendering, h.mask, hnoted]

/-- Reading a register does not steer the unit. -/
theorem readRegister_steering (ppu : Ppu) (cartridge : C) (address : UInt16) :
    ppu.SameSteering (ppu.readRegister cartridge address).2.1 := by
  unfold readRegister
  dsimp only
  split
  · exact ⟨rfl, rfl, rfl, rfl, nofun⟩
  split
  · exact ⟨rfl, rfl, rfl, rfl, id⟩
  split
  · unfold readData
    dsimp only
    split <;> exact ⟨rfl, rfl, rfl, rfl, id⟩
  · exact .refl ppu

/-- Nor does writing at the current address. -/
theorem writeData_steering (ppu : Ppu) (cartridge : C) (value : UInt8) :
    ppu.SameSteering (ppu.writeData cartridge value).1 := by
  have hvram : ppu.SameSteering (ppu.writeVram cartridge ppu.v value).1 := by
    unfold writeVram
    dsimp only
    split
    · exact .refl ppu
    split
    · split <;> exact ⟨rfl, rfl, rfl, rfl, id⟩
    · exact ⟨rfl, rfl, rfl, rfl, id⟩
  exact { hvram with }

/-- A register write steers the unit through the control register, through the mask or not at
all. -/
theorem writeRegister_cases (ppu : Ppu) (cartridge : C) (address : UInt16) (value : UInt8) :
    (address % 8 = 0 ∧ ppu.writeRegister cartridge address value =
        ({ ppu with ioLatch := value }.writeControl value, cartridge)) ∨
      (address % 8 = 1 ∧ ppu.writeRegister cartridge address value =
        ({ ppu with ioLatch := value }.writeMask value, cartridge)) ∨
      (address % 8 ≠ 0 ∧ address % 8 ≠ 1 ∧
        ppu.SameSteering (ppu.writeRegister cartridge address value).1) := by
  unfold writeRegister
  dsimp only
  by_cases h0 : address % 8 = 0
  · exact .inl ⟨h0, if_pos h0⟩
  by_cases h1 : address % 8 = 1
  · exact .inr (.inl ⟨h1, by rw [if_neg h0, if_pos h1]⟩)
  refine .inr (.inr ⟨h0, h1, ?_⟩)
  rw [if_neg h0, if_neg h1]
  split
  · exact ⟨rfl, rfl, rfl, rfl, id⟩
  split
  · exact ⟨rfl, rfl, rfl, rfl, id⟩
  split
  · unfold writeScroll
    split <;> exact ⟨rfl, rfl, rfl, rfl, id⟩
  split
  · unfold writeAddress
    split <;> exact ⟨rfl, rfl, rfl, rfl, id⟩
  split
  · exact { Ppu.writeData_steering { ppu with ioLatch := value } cartridge value with }
  · exact ⟨rfl, rfl, rfl, rfl, id⟩

/-- The register of the mask writes the flag with it. -/
theorem NotesMask.writeRegister {ppu : Ppu} (h : ppu.NotesMask) (cartridge : C) (address : UInt16)
    (value : UInt8) : (ppu.writeRegister cartridge address value).1.NotesMask := by
  rcases ppu.writeRegister_cases cartridge address value with
    ⟨-, hwrite⟩ | ⟨-, hwrite⟩ | ⟨-, -, hsame⟩
  · rw [hwrite]
    exact h
  · rw [hwrite]
    rfl
  · exact hsame.notesMask h

end Ppu

end

/-- The number of the picture unit's register that an address of the processor reaches. -/
def ppuRegister? (address : UInt16) : Option UInt16 :=
  if 0x2000 ≤ address ∧ address < 0x4000 then some (address % 8) else none

namespace Bus

variable {C A D : Type} [Cartridge C] [Apu A] [Controller D]

/-- Whether a write raises the interrupt: it allows interrupts during vertical blanking, which were
not allowed before. -/
def raises (bus : Bus C A D) (address : UInt16) (value : UInt8) : Bool :=
  ppuRegister? address == some 0 && (!bus.ppu.control.nmiEnabled &&
    Control.nmiEnabled ⟨value⟩ && bus.ppu.status.vblank)

omit [Cartridge C] in
/-- A read between the picture unit and the cartridge reaches neither. -/
theorem readIo_devices (bus : Bus C A D) (address : UInt16) :
    (bus.readIo address).2.ppu = bus.ppu ∧ (bus.readIo address).2.cartridge = bus.cartridge := by
  unfold readIo
  by_cases hapu : address < 0x4016
  · rw [if_pos hapu]
    exact ⟨rfl, rfl⟩
  · rw [if_neg hapu]
    by_cases hone : address = 0x4016
    · rw [if_pos hone]
      exact ⟨rfl, rfl⟩
    · rw [if_neg hone]
      by_cases htwo : address = 0x4017
      · rw [if_pos htwo]
        exact ⟨rfl, rfl⟩
      · rw [if_neg htwo]
        exact ⟨rfl, rfl⟩

omit [Cartridge C] in
/-- A write between the picture unit and the cartridge reaches neither. -/
theorem writeIo_devices (bus : Bus C A D) (address : UInt16) (value : UInt8) :
    (bus.writeIo address value).ppu = bus.ppu ∧
      (bus.writeIo address value).cartridge = bus.cartridge := by
  unfold writeIo
  by_cases hdma : address = 0x4014
  · rw [if_pos hdma]
    exact ⟨rfl, rfl⟩
  · rw [if_neg hdma]
    by_cases hone : address = 0x4016
    · rw [if_pos hone]
      exact ⟨rfl, rfl⟩
    · rw [if_neg hone]
      by_cases hapu : address < 0x4018
      · rw [if_pos hapu]
        exact ⟨rfl, rfl⟩
      · rw [if_neg hapu]
        exact ⟨rfl, rfl⟩

/-- A read by the processor does not steer the unit. -/
theorem read_steering (bus : Bus C A D) (address : UInt16) :
    bus.ppu.SameSteering (bus.read address).2.ppu := by
  unfold read
  split
  · exact .refl _
  split
  · exact bus.ppu.readRegister_steering bus.cartridge address
  split
  · rw [(bus.readIo_devices address).1]
    exact .refl _
  · exact .refl _

/-- A write reaches the unit through one of its registers or not at all. -/
theorem write_ppu (bus : Bus C A D) (address : UInt16) (value : UInt8) :
    (ppuRegister? address = none ∧ (bus.write address value).ppu = bus.ppu) ∨
      (ppuRegister? address = some (address % 8) ∧ (bus.write address value).ppu =
        (bus.ppu.writeRegister bus.cartridge address value).1) := by
  unfold write ppuRegister?
  by_cases hram : address < 0x2000
  · have hlow : ¬ 0x2000 ≤ address := UInt16.not_le.mpr hram
    exact .inl ⟨if_neg fun h => hlow h.1, by rw [if_pos hram]⟩
  by_cases hhigh : address < 0x4000
  · refine .inr ⟨if_pos ⟨UInt16.not_lt.mp hram, hhigh⟩, ?_⟩
    rw [if_neg hram, if_pos hhigh]
    rfl
  refine .inl ⟨if_neg fun h => hhigh h.2, ?_⟩
  rw [if_neg hram, if_neg hhigh]
  split
  · exact (bus.writeIo_devices address value).1
  · rfl

/-- A write changes the mask only through its register, which also decides whether the unit renders,
and the pending interrupt only by raising it. -/
theorem write_steering (bus : Bus C A D) (address : UInt16) (value : UInt8) :
    let later := (bus.write address value).ppu
    later.mask = (if ppuRegister? address = some 1 then ⟨value⟩ else bus.ppu.mask) ∧
      later.rendering =
        (if ppuRegister? address = some 1 then Mask.rendering ⟨value⟩ else bus.ppu.rendering) ∧
      later.nmiPending = (bus.ppu.nmiPending || bus.raises address value) ∧
      (later.status.vblank = true → bus.ppu.status.vblank = true) := by
  intro later
  unfold raises
  rcases bus.write_ppu address value with ⟨hnone, h⟩ | ⟨hsome, h⟩
  · have hlater : later = bus.ppu := h
    simp [hnone, hlater]
  have hlater : later = (bus.ppu.writeRegister bus.cartridge address value).1 := h
  rw [hsome]
  rcases bus.ppu.writeRegister_cases bus.cartridge address value with
    ⟨hzero, hwrite⟩ | ⟨hone, hwrite⟩ | ⟨hzero, hone, hsame⟩
  · simp [hlater, hwrite, hzero, Ppu.writeControl]
  · simp [hlater, hwrite, hone, Ppu.writeMask]
  · rw [← hlater] at hsame
    exact ⟨by simp [hone, hsame.mask], by simp [hone, hsame.rendering],
      by simp [hzero, hsame.nmiPending], hsame.vblank⟩

end Bus

end Famicom
