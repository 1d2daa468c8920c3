import Famicom.Proofs.Cpu.Access
import Famicom.Proofs.Ppu.Settings

/-!
# What a program cannot reach in the picture unit

The unit keeps what it has fetched and found for the lines to come, the picture itself, and two
flags of it. A program can make the unit see other sprites, tiles and colours, but it cannot change
what the unit has made of them.

* `Ppu.SamePipeline`: two states that agree in everything that only the unit itself changes.
* `Bus.keeps_pipeline`: no access of the processor, nor anything else it can do, changes that.
-/

namespace Famicom

/-- Two states of the picture unit that agree in everything that only the unit itself changes. -/
structure Ppu.SamePipeline (ppu later : Ppu) : Prop where
  background : later.background = ppu.background
  secondaryOam : later.secondaryOam = ppu.secondaryOam
  search : later.search = ppu.search
  spriteLine : later.spriteLine = ppu.spriteLine
  frame : later.frame = ppu.frame
  overflow : later.status.overflow = ppu.status.overflow
  spriteZeroHit : later.status.spriteZeroHit = ppu.status.spriteZeroHit

namespace Ppu

section

variable {C : Type} [Cartridge C]

theorem SamePipeline.refl (ppu : Ppu) : ppu.SamePipeline ppu :=
  ⟨rfl, rfl, rfl, rfl, rfl, rfl, rfl⟩

theorem SamePipeline.trans {ppu later last : Ppu} (h : ppu.SamePipeline later)
    (h' : later.SamePipeline last) : ppu.SamePipeline last where
  background := h'.background.trans h.background
  secondaryOam := h'.secondaryOam.trans h.secondaryOam
  search := h'.search.trans h.search
  spriteLine := h'.spriteLine.trans h.spriteLine
  frame := h'.frame.trans h.frame
  overflow := h'.overflow.trans h.overflow
  spriteZeroHit := h'.spriteZeroHit.trans h.spriteZeroHit

/-- What reading a register can change. -/
theorem readRegister_changes (ppu : Ppu) (cartridge : C) (address : UInt16) :
    let later := (ppu.readRegister cartridge address).2.1
    later =
      { ppu with
        status.vblank := later.status.vblank
        v := later.v
        secondWrite := later.secondWrite
        readBuffer := later.readBuffer
        ioLatch := later.ioLatch } := by
  unfold readRegister
  dsimp only
  split
  · rfl
  split
  · rfl
  split
  · unfold readData
    dsimp only
    split <;> rfl
  · rfl

/-- What writing a register can change. -/
theorem writeRegister_changes (ppu : Ppu) (cartridge : C) (address : UInt16) (value : UInt8) :
    let later := (ppu.writeRegister cartridge address value).1
    later =
      { ppu with
        control := later.control
        mask := later.mask
        rendering := later.rendering
        oamAddress := later.oamAddress
        v := later.v
        t := later.t
        fineX := later.fineX
        secondWrite := later.secondWrite
        ioLatch := later.ioLatch
        nmiPending := later.nmiPending
        ciram := later.ciram
        palette := later.palette
        oam := later.oam } := by
  dsimp only
  generalize hwrite : ppu.writeRegister cartridge address value = result
  unfold writeRegister at hwrite
  dsimp only at hwrite
  split at hwrite
  · subst hwrite; rfl
  split at hwrite
  · subst hwrite; rfl
  split at hwrite
  · subst hwrite; rfl
  split at hwrite
  · subst hwrite; rfl
  split at hwrite
  · unfold writeScroll at hwrite
    split at hwrite <;> subst hwrite <;> rfl
  split at hwrite
  · unfold writeAddress at hwrite
    split at hwrite <;> subst hwrite <;> rfl
  split at hwrite
  · unfold writeData writeVram at hwrite
    dsimp only at hwrite
    split at hwrite
    · subst hwrite; rfl
    split at hwrite
    · split at hwrite <;> subst hwrite <;> rfl
    · subst hwrite; rfl
  · subst hwrite; rfl

theorem readRegister_pipeline (ppu : Ppu) (cartridge : C) (address : UInt16) :
    ppu.SamePipeline (ppu.readRegister cartridge address).2.1 := by
  rw [readRegister_changes]
  exact { SamePipeline.refl ppu with }

theorem writeRegister_pipeline (ppu : Ppu) (cartridge : C) (address : UInt16) (value : UInt8) :
    ppu.SamePipeline (ppu.writeRegister cartridge address value).1 := by
  rw [writeRegister_changes]
  exact { SamePipeline.refl ppu with }

end

end Ppu

namespace Bus

variable {C A D : Type} [Cartridge C] [Apu A] [Controller D]

/-- A read reaches the unit through one of its registers or not at all. -/
theorem read_ppu (bus : Bus C A D) (address : UInt16) :
    (bus.read address).2.ppu = bus.ppu ∨
      (bus.read address).2.ppu = (bus.ppu.readRegister bus.cartridge address).2.1 := by
  unfold read
  split
  · exact .inl rfl
  split
  · exact .inr rfl
  split
  · exact .inl (bus.readIo_devices address).1
  · exact .inl rfl

/-- Nothing that the processor can do changes what only the unit itself changes. -/
theorem keeps_pipeline (given : Ppu) :
    Keeps (fun _ => True) fun bus : Bus C A D => given.SamePipeline bus.ppu where
  read bus address _ h := by
    have hregister := bus.ppu.readRegister_pipeline bus.cartridge address
    show given.SamePipeline (bus.read address).2.ppu
    rcases bus.read_ppu address with hsame | hread
    · rwa [hsame]
    · rw [hread]
      exact h.trans hregister
  write bus address value _ h := by
    have hregister := bus.ppu.writeRegister_pipeline bus.cartridge address value
    show given.SamePipeline (bus.write address value).ppu
    rcases bus.write_ppu address value with ⟨-, hsame⟩ | ⟨-, hwrite⟩
    · rwa [hsame]
    · rw [hwrite]
      exact h.trans hregister
  clock _ _ h := h
  takeNmi _ h := { h with }
  takeDmaRequest _ h := h
  writeOam _ _ h := { h with }

end Bus

end Famicom
