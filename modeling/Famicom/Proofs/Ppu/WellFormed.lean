import Famicom.Ppu.Register
import Famicom.Proofs.Ppu.Brush
import Famicom.Proofs.Ppu.Settings
import Famicom.Proofs.Ppu.Sprites

/-!
# Well-formed states

Whatever the console and a program do with the picture unit, its state stays within the widths of
the chip: addresses have 15 bits, palette entries six, pixels four or five, and pixels that are
kept as transparent are zero. What is noted about rendering is what the mask says.

* `Ppu.Sound`: the widths that the types do not enforce; one lemma for each operation.
* `Ppu.WellFormed`: all of them, and that the flag says what the mask shows, `Ppu.Sound.wellFormed`.
-/

namespace Famicom

/-! ## Pixels -/

/-- A pixel is transparent, or a colour other than the first of one of four palettes. -/
def IsPixel (pixel : UInt8) : Prop := pixel = 0 ∨ pixel < 16 ∧ pixel % 4 ≠ 0

instance (pixel : UInt8) : Decidable (IsPixel pixel) :=
  inferInstanceAs (Decidable (pixel = 0 ∨ pixel < 16 ∧ pixel % 4 ≠ 0))

theorem isPixel_tilePixel (plane0 plane1 : UInt8) (bit : Nat) {palette : UInt8}
    (h : palette < 4) : IsPixel (tilePixel plane0 plane1 bit palette) := by
  have hcolor (low high : Bool) : ∀ palette : UInt8, palette < 4 →
      IsPixel (if low.toUInt8 + 2 * high.toUInt8 = 0 then 0
        else 4 * palette + (low.toUInt8 + 2 * high.toUInt8)) := by
    cases low <;> cases high <;> exact Byte.forall_of_fin (by decide +kernel)
  exact hcolor _ _ palette h

/-- A line of background pixels. -/
def TileLine.Proper (line : TileLine) : Prop := ∀ i : Fin 8, IsPixel (line.get i)

theorem TileLine.proper_ofPlanes (plane0 plane1 : UInt8) {palette : UInt8} (h : palette < 4) :
    (ofPlanes plane0 plane1 palette).Proper := by
  intro i
  rw [Ppu.get_ofPlanes]
  exact isPixel_tilePixel _ _ _ h

namespace SpriteLine

/-- The palette entry of the sprite pixel at a column; zero where there is none. -/
def entryAt (dots : SpriteLine) (x : Fin 256) : UInt8 := ((dots.get x).map SpriteDot.index).getD 0

/-- Whether the background hides the sprite pixel at a column. -/
def behindAt (dots : SpriteLine) (x : Fin 256) : Bool := (dots.get x).any SpriteDot.behind

/-- Whether the sprite pixel at a column is the first sprite's. -/
def firstAt (dots : SpriteLine) (x : Fin 256) : Bool := (dots.get x).any SpriteDot.first

/-- A line of sprite pixels, each of which is opaque. -/
def Proper (dots : SpriteLine) : Prop :=
  ∀ x dot, dots.get x = some dot → 0x10 ≤ dot.index ∧ dot.index < 0x20 ∧ dot.index % 4 ≠ 0

theorem proper_empty : SpriteLine.empty.Proper := by
  intro x dot h
  simp [SpriteLine.empty, Vector.get] at h

theorem proper_dot : ∀ pixel : UInt8, pixel < 16 ∧ pixel % 4 ≠ 0 →
    0x10 ≤ 0x10 + pixel ∧ 0x10 + pixel < 0x20 ∧ (0x10 + pixel) % 4 ≠ 0 :=
  Byte.forall_of_fin (by decide +kernel)

/-- Drawing a pixel keeps the line proper. -/
theorem Proper.draw {dots : SpriteLine} (h : dots.Proper) (x : Nat) {pixel : UInt8}
    (hpixel : IsPixel pixel) (behind first : Bool) :
    (dots.draw x pixel behind first).Proper := by
  intro x' dot hdot
  rw [get_draw, Option.or_eq_some_iff] at hdot
  rcases hdot with hold | ⟨-, hnew⟩
  · exact h x' dot hold
  · split at hnew
    · next hdrawn =>
      cases hnew
      exact proper_dot pixel (hpixel.resolve_left hdrawn.2)
    · cases hnew

/-- A proper line keeps palettes above the background's, and flags only with them. -/
theorem Proper.entryAt {dots : SpriteLine} (h : dots.Proper) (x : Fin 256) :
    (dots.entryAt x = 0 ∨
        0x10 ≤ dots.entryAt x ∧ dots.entryAt x < 0x20 ∧ dots.entryAt x % 4 ≠ 0) ∧
      (dots.behindAt x = true ∨ dots.firstAt x = true → dots.entryAt x ≠ 0) := by
  unfold SpriteLine.entryAt behindAt firstAt
  cases hx : dots.get x with
  | none => simp
  | some dot =>
    obtain ⟨hle, hlt, hne⟩ := h x dot hx
    refine ⟨.inr ⟨hle, hlt, hne⟩, fun _ hzero => ?_⟩
    have hindex : dot.index = 0 := hzero
    rw [hindex] at hle
    exact absurd hle (by decide)

end SpriteLine

/-! ## Memories -/

/-- Palette memory: colours have six bits, and the first entries of the sprite palettes are not
used. -/
structure Memory.IsPalette (palette : Memory 32) : Prop where
  load_lt : ∀ address, palette.load address < 0x40
  unused : ∀ i ∈ [0x10, 0x14, 0x18, 0x1C], palette.load i = 0

theorem paletteIndex_spec (address : Nat) :
    Ppu.paletteIndex address < 32 ∧
      ¬ (16 ≤ Ppu.paletteIndex address ∧ Ppu.paletteIndex address % 4 = 0) := by
  unfold Ppu.paletteIndex
  dsimp only
  split <;> omega

theorem Memory.IsPalette.store {palette : Memory 32} (h : palette.IsPalette) (address : Nat)
    (value : UInt8) : (palette.store (Ppu.paletteIndex address) (value % 0x40)).IsPalette where
  load_lt a := by
    rw [Memory.load_store]
    split
    · exact UInt8.mod_lt _ (by decide)
    · exact h.load_lt a
  unused i hi := by
    obtain ⟨hlt, hnot⟩ := paletteIndex_spec address
    have hother : ¬ Ppu.paletteIndex address % 32 = i % 32 := by
      simp only [List.mem_cons, List.not_mem_nil, or_false] at hi
      rcases hi with rfl | rfl | rfl | rfl <;> omega
    rw [Memory.load_store, if_neg hother]
    exact h.unused i hi

theorem Word.ofBytes_lt {low high : UInt8} (h : high < 0x80) : Word.ofBytes low high < 0x8000 := by
  have hhigh : high.toNat < 0x80 := h
  have hlow := low.toNat_lt
  rw [UInt16.lt_iff_toNat_lt, Word.toNat_ofBytes]
  show low.toNat + 0x100 * high.toNat < 0x8000
  omega

theorem pixelWord_lt (color emphasis : UInt8) : pixelWord color emphasis < 0x200 := by
  rw [UInt16.lt_iff_toNat_lt, pixelWord]
  simp only [UInt16.toNat_add, UInt16.toNat_mul, UInt8.toNat_toUInt16, UInt8.toNat_mod,
    UInt16.reduceToNat, UInt8.reduceToNat]
  omega

/-- A frame whose words have nine bits. -/
def Frame.Proper (frame : Frame) : Prop := ∀ x y, frame.word x y < 0x200

theorem Frame.Proper.setPixel {frame : Frame} (h : frame.Proper) (x : Fin 256) (y : Fin 240)
    (color emphasis : UInt8) : (frame.setPixel x y color emphasis).Proper := by
  intro x' y'
  rw [word_setPixel]
  split
  · exact pixelWord_lt color emphasis
  · exact h x' y'

/-! ## Addresses -/

namespace VramAddress

theorem ofFields_lt {fineY nametableY nametableX coarseY coarseX : UInt16}
    (hf : fineY.toNat < 8) (hy : nametableY.toNat < 2) (hx : nametableX.toNat < 2)
    (hcy : coarseY.toNat < 32) (hcx : coarseX.toNat < 32) :
    ofFields fineY nametableY nametableX coarseY coarseX < 0x8000 := by
  rw [UInt16.lt_iff_toNat_lt, toNat_ofFields hf hy hx hcy hcx]
  simp only [UInt16.reduceToNat]
  omega

theorem other_lt {n : UInt16} (h : n.toNat < 2) : (1 - n).toNat < 2 := by
  have hle : n ≤ 1 := UInt16.le_iff_toNat_le.mpr (Nat.le_of_lt_succ h)
  rw [UInt16.toNat_sub_of_le _ _ hle]
  simp only [UInt16.reduceToNat]
  omega

/-- A step of up to a line of tiles does not wrap round. -/
theorem toNat_add_of_lt {v n : UInt16} (h : v < 0x8000) (hn : n.toNat ≤ 0x1000) :
    (v + n).toNat = v.toNat + n.toNat := by
  have hlt : v.toNat < 0x8000 := h
  rw [UInt16.toNat_add]
  exact Nat.mod_eq_of_lt (by omega)

theorem nextColumn_lt {v : VramAddress} (h : v < 0x8000) : v.nextColumn < 0x8000 := by
  obtain ⟨hf, hy, hx, hcy, hcx⟩ := fields_lt v
  unfold nextColumn
  split
  · exact ofFields_lt hf hy (other_lt hx) hcy (by decide)
  · next hne =>
    have hlt : v.toNat < 0x8000 := h
    have hcolumn : v.toNat % 32 ≠ 31 := fun heq => hne (UInt16.toNat_inj.mp heq)
    rw [UInt16.lt_iff_toNat_lt, toNat_add_of_lt h (by decide)]
    show v.toNat + 1 < 0x8000
    omega

theorem nextRow_lt {v : VramAddress} (h : v < 0x8000) : v.nextRow < 0x8000 := by
  obtain ⟨hf, hy, hx, hcy, hcx⟩ := fields_lt v
  unfold nextRow
  split
  · next hne =>
    have hlt : v.toNat < 0x8000 := h
    have hfine : v.toNat / 0x1000 % 8 ≠ 7 := fun heq => hne (UInt16.toNat_inj.mp heq)
    rw [UInt16.lt_iff_toNat_lt, toNat_add_of_lt h (by decide)]
    show v.toNat + 0x1000 < 0x8000
    omega
  split
  · exact ofFields_lt (by decide) (other_lt hy) hx (by decide) hcx
  split
  · exact ofFields_lt (by decide) hy hx (by decide) hcx
  · next hne =>
    have hrow : v.coarseY.toNat ≠ 31 := fun heq => hne (UInt16.toNat_inj.mp heq)
    refine ofFields_lt (by decide) hy hx ?_ hcx
    simp only [UInt16.toNat_add, UInt16.reduceToNat]
    omega

theorem withColumnOf_lt (v t : VramAddress) : v.withColumnOf t < 0x8000 := by
  obtain ⟨hf, hy, -, hcy, -⟩ := fields_lt v
  obtain ⟨-, -, hx, -, hcx⟩ := fields_lt t
  exact ofFields_lt hf hy hx hcy hcx

theorem withRowOf_lt (v t : VramAddress) : v.withRowOf t < 0x8000 := by
  obtain ⟨-, -, hx, -, hcx⟩ := fields_lt v
  obtain ⟨hf, hy, -, hcy, -⟩ := fields_lt t
  exact ofFields_lt hf hy hx hcy hcx

theorem toNat_div_eight_lt (b : UInt8) : (b / 8).toUInt16.toNat < 32 := by
  have hb := b.toNat_lt
  rw [UInt8.toNat_toUInt16, UInt8.toNat_div]
  simp only [UInt8.reduceToNat]
  omega

theorem withNametable_lt (v : VramAddress) (bits : UInt8) : v.withNametable bits < 0x8000 := by
  obtain ⟨hf, -, -, hcy, hcx⟩ := fields_lt v
  have hlt (b : UInt8) : (b % 2).toUInt16.toNat < 2 := by
    rw [UInt8.toNat_toUInt16, UInt8.toNat_mod]
    exact Nat.mod_lt _ (by decide)
  exact ofFields_lt hf (hlt _) (hlt _) hcy hcx

theorem withScrollX_lt (v : VramAddress) (x : UInt8) : v.withScrollX x < 0x8000 := by
  obtain ⟨hf, hy, hx, hcy, -⟩ := fields_lt v
  exact ofFields_lt hf hy hx hcy (toNat_div_eight_lt x)

theorem withScrollY_lt (v : VramAddress) (y : UInt8) : v.withScrollY y < 0x8000 := by
  obtain ⟨-, hy, hx, -, hcx⟩ := fields_lt v
  have hfine : (y % 8).toUInt16.toNat < 8 := by
    rw [UInt8.toNat_toUInt16, UInt8.toNat_mod]
    exact Nat.mod_lt _ (by decide)
  exact ofFields_lt hfine hy hx (toNat_div_eight_lt y) hcx

end VramAddress

namespace Control

theorem spriteTable_le (c : Control) : c.spriteTable.toNat ≤ 0x1000 := by
  unfold spriteTable
  split <;> decide

theorem backgroundTable_le (c : Control) : c.backgroundTable.toNat ≤ 0x1000 := by
  unfold backgroundTable
  split <;> decide

end Control

/-! ## The picture unit -/

namespace Ppu

/-- The widths that a state of the picture unit keeps, apart from those that its types enforce. -/
structure Sound (ppu : Ppu) : Prop where
  v_lt : ppu.v < 0x8000
  t_lt : ppu.t < 0x8000
  palette : ppu.palette.IsPalette
  left : ppu.background.left.Proper
  right : ppu.background.right.Proper
  spriteLine : ppu.spriteLine.Proper
  frame : ppu.frame.Proper

theorem sound_powerOn (standard : VideoStandard) : (powerOn standard).Sound where
  v_lt := show (0 : UInt16) < 0x8000 by decide
  t_lt := show (0 : UInt16) < 0x8000 by decide
  palette := ⟨fun _ => by simp [powerOn], fun _ _ => by simp [powerOn]⟩
  left i := by simp [powerOn, TileWindow.blank, TileLine.blank, Vector.get, IsPixel]
  right i := by simp [powerOn, TileWindow.blank, TileLine.blank, Vector.get, IsPixel]
  spriteLine := SpriteLine.proper_empty
  frame x y := by
    have hword : (powerOn standard).frame.word x y = 0x0F := by
      simp [powerOn, Frame.black, Frame.uniform, Frame.word, Vector.get, pixelWord]
    rw [hword]
    decide

namespace Sound

variable {C : Type} [Cartridge C] {ppu : Ppu}

/-! ### Registers -/

theorem stepAddress (h : ppu.Sound) : ppu.stepAddress.Sound :=
  { h with v_lt := UInt16.mod_lt _ (by decide) }

theorem readData (h : ppu.Sound) (cartridge : C) : (ppu.readData cartridge).2.1.Sound := by
  unfold Ppu.readData
  dsimp only
  split
  · apply stepAddress
    exact { h with }
  · apply stepAddress
    exact { h with }

theorem readRegister (h : ppu.Sound) (cartridge : C) (address : UInt16) :
    (ppu.readRegister cartridge address).2.1.Sound := by
  unfold Ppu.readRegister
  dsimp only
  split
  · exact { h with }
  split
  · exact { h with }
  split
  · exact { h.readData cartridge with }
  · exact h

theorem writeOam (h : ppu.Sound) (value : UInt8) : (ppu.writeOam value).Sound := { h with }

theorem writeControl (h : ppu.Sound) (value : UInt8) : (ppu.writeControl value).Sound :=
  { h with t_lt := VramAddress.withNametable_lt _ _ }

theorem writeScroll (h : ppu.Sound) (value : UInt8) : (ppu.writeScroll value).Sound := by
  unfold Ppu.writeScroll
  split
  · exact { h with t_lt := VramAddress.withScrollY_lt _ _ }
  · exact { h with t_lt := VramAddress.withScrollX_lt _ _ }

theorem writeAddress (h : ppu.Sound) (value : UInt8) : (ppu.writeAddress value).Sound := by
  unfold Ppu.writeAddress
  split
  · have ht : Word.ofBytes value (Word.high ppu.t) < 0x8000 := by
      have hlt : ppu.t.toNat < 0x8000 := h.t_lt
      refine Word.ofBytes_lt (UInt8.lt_iff_toNat_lt.mpr ?_)
      rw [Word.high, UInt16.toNat_toUInt8, UInt16.toNat_div]
      simp only [UInt16.reduceToNat, UInt8.reduceToNat]
      omega
    exact { h with v_lt := ht, t_lt := ht }
  · have ht : Word.ofBytes (Word.low ppu.t) (value % 0x40) < 0x8000 := by
      refine Word.ofBytes_lt (UInt8.lt_iff_toNat_lt.mpr ?_)
      rw [UInt8.toNat_mod]
      simp only [UInt8.reduceToNat]
      omega
    exact { h with t_lt := ht }

theorem writeVram (h : ppu.Sound) (cartridge : C) (address : UInt16) (value : UInt8) :
    (ppu.writeVram cartridge address value).1.Sound := by
  unfold Ppu.writeVram
  dsimp only
  split
  · exact h
  split
  · split
    · exact { h with }
    · exact h
  · exact { h with palette := h.palette.store _ _ }

theorem writeRegister (h : ppu.Sound) (cartridge : C) (address : UInt16) (value : UInt8) :
    (ppu.writeRegister cartridge address value).1.Sound := by
  have hlatch : { ppu with ioLatch := value }.Sound := { h with }
  unfold Ppu.writeRegister
  generalize { ppu with ioLatch := value } = latched at hlatch
  dsimp only
  split
  · exact hlatch.writeControl value
  split
  · exact { hlatch with }
  split
  · exact { hlatch with }
  split
  · exact hlatch.writeOam value
  split
  · exact hlatch.writeScroll value
  split
  · exact hlatch.writeAddress value
  split
  · exact (hlatch.writeVram cartridge _ value).stepAddress
  · exact hlatch

/-! ### Steps -/

theorem nextColumn (h : ppu.Sound) : ppu.nextColumn.Sound :=
  { h with v_lt := VramAddress.nextColumn_lt h.v_lt }

theorem nextRow (h : ppu.Sound) : ppu.nextRow.Sound :=
  { h with v_lt := VramAddress.nextRow_lt h.v_lt }

theorem reloadColumn (h : ppu.Sound) : ppu.reloadColumn.Sound :=
  { h with v_lt := VramAddress.withColumnOf_lt _ _ }

theorem reloadRow (h : ppu.Sound) : ppu.reloadRow.Sound :=
  { h with v_lt := VramAddress.withRowOf_lt _ _ }

theorem fetchTile (h : ppu.Sound) (cartridge : C) : (ppu.fetchTile cartridge).1.Sound :=
  { h with
    left := h.right
    right := TileLine.proper_ofPlanes _ _ (UInt8.mod_lt _ (by decide)) }

theorem drawTile (h : ppu.Sound) (line : Fin 240) (tile : Fin 32) :
    (ppu.drawTile line tile).Sound := by
  refine { h with frame := ?_ }
  unfold Ppu.drawTile
  dsimp only
  rw [Fin.foldl_eq_finRange_foldl]
  exact List.foldlRecOn _ _ h.frame fun frame hframe i _ => hframe.setPixel _ _ _ _

theorem clearSpriteLine (h : ppu.Sound) : ppu.clearSpriteLine.Sound :=
  { h with spriteLine := SpriteLine.proper_empty }

theorem drawSprite (h : ppu.Sound) (cartridge : C) (slot : Nat) (row : UInt16) :
    (ppu.drawSprite cartridge slot row).1.Sound := by
  refine { h with spriteLine := ?_ }
  unfold Ppu.drawSprite
  dsimp only
  rw [Fin.foldl_eq_finRange_foldl]
  exact List.foldlRecOn _ _ h.spriteLine fun dots hdots i _ =>
    hdots.draw _ (isPixel_tilePixel _ _ _ (UInt8.mod_lt _ (by decide))) _ _

theorem fetchSprite (h : ppu.Sound) (cartridge : C) (slot : Nat) :
    (ppu.fetchSprite cartridge slot).1.Sound := by
  obtain ⟨fetching, hfetching, hfetch⟩ := ppu.fetchSprite_cases cartridge slot
  have hsound : fetching.Sound := by
    rcases hfetching with rfl | rfl
    · exact h
    · exact h.clearSpriteLine
  rcases hfetch with hfetch | ⟨row, hfetch⟩
  · rw [hfetch]
    exact hsound
  · rw [hfetch]
    exact hsound.drawSprite cartridge slot row

end Sound

/-- A state of the picture unit within the widths of the chip. -/
structure WellFormed (ppu : Ppu) : Prop where
  v_lt : ppu.v < 0x8000
  t_lt : ppu.t < 0x8000
  fineX_lt : ppu.fineX.val < 8
  /-- The status has three flags. -/
  status_low : ppu.status.toByte &&& 0x1F = 0
  /-- The flag says whether the mask shows a layer. -/
  rendering_iff : ppu.rendering = true ↔ ppu.mask.byte &&& 0x18 ≠ 0
  count_le : ppu.search.count.val ≤ 8
  palette_lt : ∀ address, ppu.palette.load address < 0x40
  /-- The first entries of the sprite palettes are those of the background's. -/
  palette_unused : ∀ i ∈ [0x10, 0x14, 0x18, 0x1C], ppu.palette.load i = 0
  background : ∀ i : Fin 8, IsPixel (ppu.background.left.get i) ∧
    IsPixel (ppu.background.right.get i)
  sprites : ∀ x, ppu.spriteLine.entryAt x = 0 ∨ 0x10 ≤ ppu.spriteLine.entryAt x ∧
    ppu.spriteLine.entryAt x < 0x20 ∧ ppu.spriteLine.entryAt x % 4 ≠ 0
  /-- Only where there is a sprite pixel, the background can hide it, or it can be the first
  sprite's. -/
  spriteFlags : ∀ x, ppu.spriteLine.behindAt x = true ∨ ppu.spriteLine.firstAt x = true →
    ppu.spriteLine.entryAt x ≠ 0
  frame_lt : ∀ x y, ppu.frame.word x y < 0x200

theorem status_low (status : PpuStatus) : status.toByte &&& 0x1F = 0 := by
  obtain ⟨overflow, hit, vblank⟩ := status
  cases overflow <;> cases hit <;> cases vblank <;> decide

theorem rendering_mask (mask : Mask) : mask.rendering = true ↔ mask.byte &&& 0x18 ≠ 0 := by
  have hbits : ∀ byte : UInt8, Mask.rendering ⟨byte⟩ = true ↔ byte &&& 0x18 ≠ 0 :=
    Byte.forall_of_fin (by decide +kernel)
  exact hbits mask.byte

theorem Sound.wellFormed {ppu : Ppu} (h : ppu.Sound) (hnoted : ppu.NotesMask) :
    ppu.WellFormed where
  v_lt := h.v_lt
  t_lt := h.t_lt
  fineX_lt := ppu.fineX.isLt
  status_low := status_low _
  rendering_iff := by rw [hnoted, rendering_mask]
  count_le := Nat.le_of_lt_succ ppu.search.count.isLt
  palette_lt := h.palette.load_lt
  palette_unused := h.palette.unused
  background i := ⟨h.left i, h.right i⟩
  sprites x := (h.spriteLine.entryAt x).1
  spriteFlags x := (h.spriteLine.entryAt x).2
  frame_lt := h.frame

end Ppu

end Famicom
