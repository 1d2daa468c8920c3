import Famicom.Proofs.Ppu.CheckedSprites

/-!
# Calls of the picture unit

What the console and a program can ask of the picture unit, as data, so that statements can be made
about every sequence of requests. Each request that reaches a cartridge brings its own.

* `Ppu.Sound.run`: a request keeps the unit within the widths of the chip.
* `Ppu.NotesMask.run`: a request keeps the flag of rendering in step with the mask.
* `Checked.run_eq`: a request passes its checks and does what the unit does.
* `Ppu.runAll_powerOn`: every sequence of requests after power-on does both.
-/

namespace Famicom

namespace Ppu

/-- A request to the picture unit. -/
inductive Call : Type 1 where
  | read {C : Type} [Cartridge C] (cartridge : C) (address : UInt16)
  | write {C : Type} [Cartridge C] (cartridge : C) (address : UInt16) (value : UInt8)
  | writeOam (value : UInt8)
  | beginVblank
  | endVblank
  | takeNmi
  | reset
  | setStandard (standard : VideoStandard)
  | nextColumn
  | nextRow
  | reloadColumn
  | reloadRow
  | fetchTile {C : Type} [Cartridge C] (cartridge : C)
  | drawTile (line : Fin 240) (tile : Fin 32)
  | clearSecondaryOam
  | clearSpriteLine
  | searchSprites (line : UInt16)
  | fetchSprite {C : Type} [Cartridge C] (cartridge : C) (slot : Nat)

/-- Do what is asked for. -/
def run (ppu : Ppu) : Call → Ppu
  | @Call.read _ _ cartridge address => (ppu.readRegister cartridge address).2.1
  | @Call.write _ _ cartridge address value => (ppu.writeRegister cartridge address value).1
  | .writeOam value => ppu.writeOam value
  | .beginVblank => ppu.beginVblank
  | .endVblank => ppu.endVblank
  | .takeNmi => ppu.takeNmi.2
  | .reset => ppu.reset
  | .setStandard standard => { ppu with standard }
  | .nextColumn => ppu.nextColumn
  | .nextRow => ppu.nextRow
  | .reloadColumn => ppu.reloadColumn
  | .reloadRow => ppu.reloadRow
  | @Call.fetchTile _ _ cartridge => (ppu.fetchTile cartridge).1
  | .drawTile line tile => ppu.drawTile line tile
  | .clearSecondaryOam => ppu.clearSecondaryOam
  | .clearSpriteLine => ppu.clearSpriteLine
  | .searchSprites line => ppu.searchSprites line
  | @Call.fetchSprite _ _ cartridge slot => (ppu.fetchSprite cartridge slot).1

/-- Do what is asked for, one request after the other. -/
def runAll (ppu : Ppu) (calls : List Call) : Ppu := calls.foldl run ppu

theorem Sound.run {ppu : Ppu} (h : ppu.Sound) (call : Call) : (ppu.run call).Sound := by
  cases call with
  | read cartridge address => exact h.readRegister cartridge address
  | write cartridge address value => exact h.writeRegister cartridge address value
  | writeOam value => exact h.writeOam value
  | beginVblank => exact { h with }
  | endVblank => exact { h with }
  | takeNmi => exact { h with }
  | reset => exact { h with t_lt := show (0 : UInt16) < 0x8000 by decide }
  | setStandard standard => exact { h with }
  | nextColumn => exact h.nextColumn
  | nextRow => exact h.nextRow
  | reloadColumn => exact h.reloadColumn
  | reloadRow => exact h.reloadRow
  | fetchTile cartridge => exact h.fetchTile cartridge
  | drawTile line tile => exact h.drawTile line tile
  | clearSecondaryOam => exact { h with }
  | clearSpriteLine => exact h.clearSpriteLine
  | searchSprites line => exact { h with }
  | fetchSprite cartridge slot => exact h.fetchSprite cartridge slot

/-- What is noted about rendering stays what the mask says: the two are written together, cleared
together, and brought together at the end of vertical blanking. -/
theorem NotesMask.run {ppu : Ppu} (h : ppu.NotesMask) (call : Call) : (ppu.run call).NotesMask := by
  cases call with
  | read cartridge address => exact (ppu.readRegister_steering cartridge address).notesMask h
  | write cartridge address value => exact h.writeRegister cartridge address value
  | endVblank => rfl
  | reset => exact show false = Mask.rendering ⟨0⟩ by decide
  | fetchSprite cartridge slot => exact (ppu.fetchSprite_settings cartridge slot).notesMask h
  | _ => exact h

theorem NotesMask.runAll {ppu : Ppu} (h : ppu.NotesMask) (calls : List Call) :
    (ppu.runAll calls).NotesMask :=
  List.foldlRecOn calls _ h fun _ hnoted call _ => hnoted.run call

theorem Sound.runAll {ppu : Ppu} (h : ppu.Sound) (calls : List Call) : (ppu.runAll calls).Sound :=
  List.foldlRecOn calls _ h fun _ hsound call _ => hsound.run call

end Ppu

namespace Checked

/-- `Ppu.run`. The requests that do not come through a checked operation neither compute nor
index. -/
def run (ppu : Ppu) : Ppu.Call → Option Ppu
  | @Ppu.Call.read _ _ cartridge address =>
    (readRegister ppu cartridge address).map fun result => result.2.1
  | @Ppu.Call.write _ _ cartridge address value =>
    (writeRegister ppu cartridge address value).map Prod.fst
  | .writeOam value => writeOam ppu value
  | .nextColumn => (nextColumn ppu.v).map fun v => { ppu with v }
  | .nextRow => (nextRow ppu.v).map fun v => { ppu with v }
  | @Ppu.Call.fetchTile _ _ cartridge => (fetchTile ppu cartridge).map Prod.fst
  | .drawTile line tile => drawTile ppu line tile
  | .searchSprites line => searchSprites ppu line
  | @Ppu.Call.fetchSprite _ _ cartridge slot => (fetchSprite ppu cartridge slot).map Prod.fst
  | call => some (ppu.run call)

/-- `Ppu.runAll`. -/
def runAll (ppu : Ppu) (calls : List Ppu.Call) : Option Ppu := calls.foldlM run ppu

theorem run_eq {ppu : Ppu} (h : ppu.Sound) (call : Ppu.Call) :
    run ppu call = some (ppu.run call) := by
  cases call with
  | read cartridge address => rw [run, readRegister_eq]; rfl
  | write cartridge address value => rw [run, writeRegister_eq]; rfl
  | writeOam value => exact writeOam_eq ppu value
  | nextColumn => rw [run, nextColumn_eq h.v_lt]; rfl
  | nextRow => rw [run, nextRow_eq h.v_lt]; rfl
  | fetchTile cartridge => rw [run, fetchTile_eq]; rfl
  | drawTile line tile => exact drawTile_eq ppu line tile
  | searchSprites line => exact searchSprites_eq ppu line
  | fetchSprite cartridge slot => rw [run, fetchSprite_eq]; rfl
  | _ => rfl

theorem runAll_eq {ppu : Ppu} (h : ppu.Sound) (calls : List Ppu.Call) :
    runAll ppu calls = some (ppu.runAll calls) := by
  induction calls generalizing ppu with
  | nil => rfl
  | cons call calls ih =>
    rw [runAll, List.foldlM_cons, run_eq h call]
    exact ih (h.run call)

end Checked

/-- Whatever is asked of the unit after power-on, its state stays within the widths of the chip, the
flag of rendering says what the mask shows, and no sum, difference, shift or index on the way misses
its range. -/
theorem Ppu.runAll_powerOn (standard : VideoStandard) (calls : List Ppu.Call) :
    ((powerOn standard).runAll calls).WellFormed ∧
      Checked.runAll (powerOn standard) calls = some ((powerOn standard).runAll calls) := by
  have hsound := sound_powerOn standard
  have hnoted : (powerOn standard).NotesMask := show false = Mask.rendering ⟨0⟩ by decide
  exact ⟨(hsound.runAll calls).wellFormed (hnoted.runAll calls), Checked.runAll_eq hsound calls⟩

end Famicom
