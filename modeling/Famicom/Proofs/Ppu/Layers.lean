import Famicom.Proofs.Console.Repaint
import Famicom.Proofs.Ppu.WellFormed

/-!
# The two layers of a picture

At each column there is a pixel of the background and one of the sprites, and zero stands for one
that is transparent or hidden. Which of the two is shown, in which colour, and whether the first
sprite has met the background, is said here column by column, with the registers as bytes; a tile
column draws eight of these words.

* `Ppu.backgroundPixel`, `Ppu.spritePixel`: the pixels of the layers.
* `Ppu.shownEntry`, `Ppu.shownColor`: the layer in front, and its colour.
* `Ppu.Sound.wordAt_eq`, `Ppu.Sound.hitAt_iff`: the unit draws what they say.
* `Ppu.Sound.composesTile`: what drawing a tile column changes.
-/

namespace Famicom

namespace Ppu

/-! ## The layers -/

/-- The background pixel at a column: of the sixteen that the unit holds, the fine scroll chooses
the eight of a tile column. Bit 3 of the mask shows the layer, bit 1 in the leftmost columns too. -/
def backgroundPixel (ppu : Ppu) (x : Fin 256) : UInt8 :=
  if Byte.bit ppu.mask.byte 3 ∧ (8 ≤ x.val ∨ Byte.bit ppu.mask.byte 1) then
    (ppu.background.left ++ ppu.background.right)[ppu.fineX.val + x.val % 8]
  else 0

/-- The sprite pixel at a column. Bit 4 of the mask shows the layer, bit 2 in the leftmost columns
too. -/
def spritePixel (ppu : Ppu) (x : Fin 256) : UInt8 :=
  if Byte.bit ppu.mask.byte 4 ∧ (8 ≤ x.val ∨ Byte.bit ppu.mask.byte 2) then
    ppu.spriteLine.entryAt x
  else 0

/-- The palette entry that a column shows: that of the sprite, if it is opaque and no opaque
background hides it. -/
def shownEntry (ppu : Ppu) (x : Fin 256) : UInt8 :=
  if ppu.spritePixel x ≠ 0 ∧ (ppu.backgroundPixel x = 0 ∨ ppu.spriteLine.behindAt x = false) then
    ppu.spritePixel x
  else ppu.backgroundPixel x

/-- The colour of a palette entry. Bit 0 of the mask reduces it to the grey column. -/
def shownColor (ppu : Ppu) (entry : UInt8) : UInt8 :=
  if Byte.bit ppu.mask.byte 0 then ppu.palette.load entry.toNat &&& 0x30
  else ppu.palette.load entry.toNat

end Ppu

/-- The emphasis of red, green and blue in a mask, from the lowest bit up; the standards differ in
which bits are red and green. -/
def VideoStandard.rgbEmphasis (standard : VideoStandard) (mask : UInt8) : UInt8 :=
  match standard with
  | .ntsc => Byte.ofBits (Byte.bit mask 5) (Byte.bit mask 6) (Byte.bit mask 7)
      false false false false false
  | .pal => Byte.ofBits (Byte.bit mask 6) (Byte.bit mask 5) (Byte.bit mask 7)
      false false false false false

namespace Ppu

/-! ## What the unit draws -/

theorem tileColumn_tileOf (x : Fin 256) : tileColumn (tileOf x) (dotOf x) = x :=
  Fin.ext (Nat.div_add_mod x.val 8)

/-- The two tiles that the unit holds are sixteen pixels in a row. -/
theorem pixel_eq_getElem_append (window : TileWindow) (offset i : Fin 8) :
    window.pixel offset i = (window.left ++ window.right)[offset.val + i.val] := by
  unfold TileWindow.pixel
  split
  · next hlt => rw [Vector.getElem_append_left hlt]
  · next hle => rw [Vector.getElem_append_right _ (Nat.not_lt.mp hle)]

theorem layerShows_iff {shown left : Bool} {x : Fin 256} :
    layerShows shown left x = true ↔ shown = true ∧ (8 ≤ x.val ∨ left = true) := by
  simp [layerShows]

theorem backgroundAt_eq (ppu : Ppu) (x : Fin 256) :
    ppu.backgroundAt (tileOf x) (dotOf x) = ppu.backgroundPixel x := by
  unfold backgroundAt backgroundPixel
  rw [tileColumn_tileOf, pixel_eq_getElem_append]
  simp only [layerShows_iff]
  rfl

theorem emphasis_eq (ppu : Ppu) : ppu.emphasis = ppu.standard.rgbEmphasis ppu.mask.byte := by
  have hbits (standard : VideoStandard) : ∀ mask : UInt8,
      standard.emphasis (Mask.emphasisBits ⟨mask⟩) = standard.rgbEmphasis mask := by
    cases standard <;> exact Byte.forall_of_fin (by decide +kernel)
  exact hbits ppu.standard ppu.mask.byte

/-- A palette entry that a pixel can have: the backdrop, or a colour other than the first of one of
eight palettes. -/
def IsEntry (entry : UInt8) : Prop := entry = 0 ∨ entry < 32 ∧ entry % 4 ≠ 0

/-- In a palette of six-bit colours, such an entry has a byte of its own. -/
theorem paletteColor_eq {ppu : Ppu} (h : ppu.palette.IsPalette) {entry : UInt8}
    (hentry : IsEntry entry) : ppu.paletteColor entry = ppu.shownColor entry := by
  have hindex : paletteIndex entry.toNat = entry.toNat := by
    have hused : entry.toNat = 0 ∨ entry.toNat < 32 ∧ entry.toNat % 4 ≠ 0 := by
      refine hentry.imp (fun hzero => by rw [hzero]; rfl) fun hused => ⟨hused.1, fun hfirst => ?_⟩
      exact hused.2 (UInt8.toNat_inj.mp (by rw [UInt8.toNat_mod]; exact hfirst))
    unfold paletteIndex
    dsimp only
    rw [Nat.mod_eq_of_lt (by omega), if_neg (by omega)]
  have hcolor : ppu.palette.load entry.toNat % 0x40 = ppu.palette.load entry.toNat := by
    refine UInt8.toNat_inj.mp ?_
    rw [UInt8.toNat_mod]
    exact Nat.mod_eq_of_lt (UInt8.lt_iff_toNat_lt.mp (h.load_lt _))
  unfold paletteColor shownColor
  rw [hindex, hcolor]
  rfl

theorem Sound.isPixel_backgroundPixel {ppu : Ppu} (h : ppu.Sound) (x : Fin 256) :
    IsPixel (ppu.backgroundPixel x) := by
  unfold backgroundPixel
  split
  · have hwindow (n : Nat) (hn : n < 16) :
        IsPixel (ppu.background.left ++ ppu.background.right)[n] := by
      rcases Nat.lt_or_ge n 8 with hlt | hge
      · rw [Vector.getElem_append_left hlt]
        exact h.left ⟨n, hlt⟩
      · rw [Vector.getElem_append_right (by omega) hge]
        exact h.right ⟨n - 8, by omega⟩
    exact hwindow _ (by omega)
  · exact .inl rfl

/-- Where a sprite shows, its pixel is opaque. -/
theorem Sound.spriteAt_cases {ppu : Ppu} (h : ppu.Sound) (x : Fin 256) :
    ppu.spriteAt x = none ∧ ppu.spritePixel x = 0 ∨
      ∃ dot, ppu.spriteAt x = some dot ∧ ppu.spritePixel x = dot.index ∧ dot.index ≠ 0 ∧
        dot.index < 32 ∧ dot.index % 4 ≠ 0 ∧ ppu.spriteLine.behindAt x = dot.behind ∧
        ppu.spriteLine.firstAt x = dot.first := by
  have hshows : layerShows ppu.mask.showSprites ppu.mask.spritesLeft x = true ↔
      Byte.bit ppu.mask.byte 4 = true ∧ (8 ≤ x.val ∨ Byte.bit ppu.mask.byte 2 = true) :=
    layerShows_iff
  unfold spriteAt spritePixel SpriteLine.entryAt SpriteLine.behindAt SpriteLine.firstAt
  simp only [hshows]
  split
  · cases hdot : ppu.spriteLine.get x with
    | none => exact .inl ⟨rfl, rfl⟩
    | some dot =>
      obtain ⟨hle, hlt, hne⟩ := h.spriteLine x dot hdot
      have hopaque : dot.index ≠ 0 := fun hzero => absurd (hzero ▸ hle) (by decide)
      exact .inr ⟨dot, rfl, rfl, hopaque, hlt, hne, rfl, rfl⟩
  · exact .inl ⟨rfl, rfl⟩

namespace Sound

variable {ppu : Ppu}

theorem paletteEntry_eq (h : ppu.Sound) (x : Fin 256) :
    paletteEntry (ppu.backgroundPixel x) (ppu.spriteAt x) = ppu.shownEntry x := by
  unfold shownEntry
  rcases h.spriteAt_cases x with ⟨hnone, hpixel⟩ | ⟨dot, hsome, hpixel, hopaque, -, -, hbehind, -⟩
  · rw [hnone, hpixel, if_neg fun hshown => hshown.1 rfl]
    rfl
  · rw [hsome, hpixel, hbehind]
    simp only [paletteEntry, ne_eq, hopaque, not_false_eq_true, true_and, Bool.not_eq_true']

theorem isEntry_shownEntry (h : ppu.Sound) (x : Fin 256) : IsEntry (ppu.shownEntry x) := by
  unfold shownEntry
  split
  · next hshown =>
    rcases h.spriteAt_cases x with ⟨-, hpixel⟩ | ⟨dot, -, hpixel, -, hlt, hne, -, -⟩
    · exact .inl hpixel
    · rw [hpixel]
      exact .inr ⟨hlt, hne⟩
  · exact (h.isPixel_backgroundPixel x).imp id fun hused =>
      ⟨UInt8.lt_trans hused.1 (by decide), hused.2⟩

/-- The word of a column: the emphasis, and under it the colour of the layer in front. -/
theorem wordAt_eq (h : ppu.Sound) (x : Fin 256) :
    ppu.wordAt x = (ppu.standard.rgbEmphasis ppu.mask.byte).toUInt16 <<< 6 |||
      (ppu.shownColor (ppu.shownEntry x)).toUInt16 := by
  have hcolor : ppu.colorAt (tileOf x) (dotOf x) = ppu.paletteColor (ppu.shownEntry x) := by
    unfold colorAt
    rw [backgroundAt_eq, tileColumn_tileOf, h.paletteEntry_eq]
  unfold wordAt
  rw [hcolor, pixelWord_eq (toNat_paletteColor_lt ppu _) (toNat_emphasis_lt ppu),
    paletteColor_eq h.palette (h.isEntry_shownEntry x), emphasis_eq]

/-- The first sprite meets the background where both layers are opaque and the sprite pixel is its
own, except in the last column. Which of the layers is in front does not matter. -/
theorem hitAt_iff (h : ppu.Sound) (x : Fin 256) :
    ppu.hitAt (tileOf x) (dotOf x) = true ↔
      x.val ≠ 255 ∧ ppu.backgroundPixel x ≠ 0 ∧ ppu.spritePixel x ≠ 0 ∧
        ppu.spriteLine.firstAt x = true := by
  unfold hitAt
  rw [tileColumn_tileOf, backgroundAt_eq]
  rcases h.spriteAt_cases x with ⟨hnone, hpixel⟩ | ⟨dot, hsome, hpixel, hopaque, -, -, -, hfirst⟩
  · simp [hnone, hpixel]
  · simp only [hsome, hpixel, hfirst, Bool.and_eq_true, bne_iff_ne]
    constructor
    · rintro ⟨⟨hown, hcolumn⟩, hbackground⟩
      exact ⟨hcolumn, hbackground, hopaque, hown⟩
    · rintro ⟨hcolumn, hbackground, -, hown⟩
      exact ⟨⟨hown, hcolumn⟩, hbackground⟩

end Sound

/-! ## A tile column -/

/-- What drawing a tile column on a line changes: the eight words of the line, and the flag of the
first sprite, which is set where the layers meet in one of them. -/
structure ComposesTile (ppu : Ppu) (line : Fin 240) (tile : Fin 32) : Prop where
  unchanged : ppu.drawTile line tile =
    { ppu with
      frame := (ppu.drawTile line tile).frame
      status.spriteZeroHit := (ppu.drawTile line tile).status.spriteZeroHit }
  kept : ∀ x y, ¬ (y = line ∧ 8 * tile.val ≤ x.val ∧ x.val ≤ 8 * tile.val + 7) →
    (ppu.drawTile line tile).frame.word x y = ppu.frame.word x y
  word : ∀ x : Fin 256, 8 * tile.val ≤ x.val → x.val ≤ 8 * tile.val + 7 →
    (ppu.drawTile line tile).frame.word x line =
      (ppu.standard.rgbEmphasis ppu.mask.byte).toUInt16 <<< 6 |||
        (ppu.shownColor (ppu.shownEntry x)).toUInt16
  hit : (ppu.drawTile line tile).status.spriteZeroHit = true ↔
    ppu.status.spriteZeroHit = true ∨
      ∃ x : Fin 256, 8 * tile.val ≤ x.val ∧ x.val ≤ 8 * tile.val + 7 ∧ x.val ≠ 255 ∧
        ppu.backgroundPixel x ≠ 0 ∧ ppu.spritePixel x ≠ 0 ∧ ppu.spriteLine.firstAt x = true

theorem tileOf_eq_iff {x : Fin 256} {tile : Fin 32} :
    tileOf x = tile ↔ 8 * tile.val ≤ x.val ∧ x.val ≤ 8 * tile.val + 7 := by
  rw [Fin.ext_iff, tileOf]
  dsimp only
  omega

/-- The flag is set if the first sprite meets the background in one of the eight columns. -/
theorem spriteZeroHit_drawTile (ppu : Ppu) (line : Fin 240) (tile : Fin 32) :
    (ppu.drawTile line tile).status.spriteZeroHit = true ↔
      ppu.status.spriteZeroHit = true ∨
        ∃ x, tileOf x = tile ∧ ppu.hitAt (tileOf x) (dotOf x) = true := by
  have hany : (List.finRange 8).any (ppu.hitAt tile) = true ↔
      ∃ x, tileOf x = tile ∧ ppu.hitAt (tileOf x) (dotOf x) = true := by
    rw [List.any_eq_true]
    constructor
    · rintro ⟨i, -, hhit⟩
      have htile : tileOf (tileColumn tile i) = tile :=
        tileOf_eq_iff.mpr ⟨Nat.le_add_right _ _, Nat.add_le_add_left (Nat.le_of_lt_succ i.isLt) _⟩
      have hdot : dotOf (tileColumn tile i) = i :=
        Fin.ext (by rw [dotOf, tileColumn]; dsimp only; omega)
      exact ⟨tileColumn tile i, htile, by rw [htile, hdot]; exact hhit⟩
    · rintro ⟨x, htile, hhit⟩
      exact ⟨dotOf x, List.mem_finRange _, htile ▸ hhit⟩
  unfold drawTile
  dsimp only
  rw [Bool.or_eq_true, hany]

/-- Drawing a tile column composes the two layers in each of its eight columns. -/
theorem Sound.composesTile {ppu : Ppu} (h : ppu.Sound) (line : Fin 240) (tile : Fin 32) :
    ppu.ComposesTile line tile where
  unchanged := rfl
  kept x y hother := by
    rw [word_drawTile, if_neg fun hdrawn => hother ⟨hdrawn.1, tileOf_eq_iff.mp hdrawn.2⟩]
  word x hle hlt := by
    rw [word_drawTile, if_pos ⟨rfl, tileOf_eq_iff.mpr ⟨hle, hlt⟩⟩, h.wordAt_eq]
  hit := by
    simp only [spriteZeroHit_drawTile, tileOf_eq_iff, h.hitAt_iff, and_assoc]

/-- A unit whose first sprite has a dot at column 12, behind an opaque background. -/
def meeting : Ppu :=
  { powerOn .pal with
    mask := ⟨0x38⟩
    fineX := Fin.last 7
    palette := (powerOn .pal).palette.store (paletteIndex 1) (0x21 % 0x40)
    background := ⟨.blank, Vector.replicate 8 1⟩
    spriteLine := SpriteLine.empty.draw 12 5 true true }

theorem sound_meeting : meeting.Sound :=
  { sound_powerOn .pal with
    palette := (sound_powerOn .pal).palette.store 1 0x21
    right := fun i => by simp [meeting, Vector.get, IsPixel]
    spriteLine := SpriteLine.proper_empty.draw 12 (by decide) true true }

/-- The background is shown, in green emphasis, and the sprite behind it is met all the same. -/
theorem composesTile_meeting : meeting.Sound ∧ meeting.ComposesTile 100 1 ∧
    (meeting.drawTile 100 1).frame.word 12 100 = 0xA1 ∧
    (meeting.drawTile 100 1).status.spriteZeroHit = true := by
  have hcomposes : meeting.ComposesTile 100 1 := sound_meeting.composesTile 100 1
  refine ⟨sound_meeting, hcomposes, ?_, ?_⟩
  · rw [hcomposes.word 12 (by decide) (by decide)]
    decide +kernel
  · exact hcomposes.hit.mpr (.inr ⟨12, by decide +kernel⟩)

end Ppu

end Famicom
