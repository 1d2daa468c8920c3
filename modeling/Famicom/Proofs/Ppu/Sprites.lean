import Famicom.Cartridge.Nrom
import Famicom.Ppu.Sprite

/-!
# The sprites of a line

What the sprites of a line look like, said without slots and line buffers: the first eight sprites
that reach the line are shown, and at each column the earliest of them that is opaque there. The
search and the eight fetches of the picture unit arrive at the same line.

* `Sprite.shown`, `SpriteEntry.dotAt`: the sprites of a line and what each shows at a column.
* `Sprite.load_copyAll`: what the search leaves in secondary memory.
* `SpriteLine.get_foldl_draw`: eight pixels of a sprite below what has been drawn before.
* `Ppu.fetchSprites_eq_shown`: the sprite line is the one that the sprites of the line give.
-/

namespace Famicom

/-! ## Sprites without slots -/

theorem Control.spriteHeight_le (c : Control) : c.spriteHeight ≤ 16 := by
  unfold spriteHeight
  split <;> decide

/-- The four bytes of a sprite. -/
structure SpriteEntry where
  y : UInt8
  tile : UInt8
  flags : UInt8
  x : UInt8
  deriving DecidableEq, Repr

namespace SpriteEntry

/-- The palette, of the four that sprites have. -/
def palette (e : SpriteEntry) : Nat := e.flags.toNat % 4

/-- Whether the background hides the sprite. -/
def behind (e : SpriteEntry) : Bool := Byte.bit e.flags 5

/-- Whether the sprite is mirrored left to right. -/
def flippedX (e : SpriteEntry) : Bool := Byte.bit e.flags 6

/-- Whether the sprite is mirrored top to bottom. -/
def flippedY (e : SpriteEntry) : Bool := Byte.bit e.flags 7

/-- Whether a sprite of a height reaches a line. -/
def Reaches (e : SpriteEntry) (height line : Nat) : Prop :=
  e.y.toNat ≤ line ∧ line < e.y.toNat + height
  deriving Decidable

/-- The row of the sprite's tiles that a line shows. -/
def row (e : SpriteEntry) (height line : Nat) : Nat :=
  if e.flippedY then height - 1 - (line - e.y.toNat) else line - e.y.toNat

/-- Where the first plane of that row lies. A small sprite is a tile of the table that the control
register chooses; a tall sprite is a pair of tiles, and the lowest bit of its number is the
table. -/
def plane (e : SpriteEntry) (control : Control) (line : Nat) : Nat :=
  let row := e.row control.spriteHeight line
  if control.tallSprites then
    0x1000 * (e.tile.toNat % 2) + 16 * (e.tile.toNat - e.tile.toNat % 2 + row / 8) + row % 8
  else (if Byte.bit control.byte 3 then 0x1000 else 0) + 16 * e.tile.toNat + row

/-- The colour at a column of the sprite, given the bytes of the pattern tables. -/
def color (e : SpriteEntry) (pattern : Nat → UInt8) (control : Control) (line column : Nat) : Nat :=
  let bit := if e.flippedX then column else 7 - column
  let plane := e.plane control line
  (pattern plane).toNat >>> bit % 2 + 2 * ((pattern (plane + 8)).toNat >>> bit % 2)

/-- What the sprite shows at a column of a line, if it is opaque there. -/
def dotAt (e : SpriteEntry) (pattern : Nat → UInt8) (control : Control) (line : Nat) (first : Bool)
    (x : Nat) : Option SpriteDot :=
  if e.x.toNat ≤ x ∧ x < e.x.toNat + 8 then
    let color := e.color pattern control line (x - e.x.toNat)
    if color = 0 then none
    else some ⟨UInt8.ofNat (0x10 + 4 * e.palette + color), e.behind, first⟩
  else none

end SpriteEntry

namespace Sprite

/-- A sprite of sprite memory. -/
def entry (oam : Memory 256) (n : Nat) : SpriteEntry where
  y := oam.load (4 * n)
  tile := oam.load (4 * n + 1)
  flags := oam.load (4 * n + 2)
  x := oam.load (4 * n + 3)

/-- The sprites that a line shows: the first eight that reach it. -/
def shown (oam : Memory 256) (height line : Nat) : List Nat :=
  ((List.range 64).filter fun n => (entry oam n).Reaches height line).take 8

/-- What the sprites of a line show at a column. -/
def lineDot (oam : Memory 256) (pattern : Nat → UInt8) (control : Control) (line x : Nat) :
    Option SpriteDot :=
  (shown oam control.spriteHeight line).findSome? fun n =>
    (entry oam n).dotAt pattern control line (n == 0) x

/-! ## The search -/

theorem take_candidates (oam : Memory 256) (height : Nat) (line : UInt16) :
    (candidates oam height line).take 8 = shown oam height line.toNat := by
  unfold candidates shown
  congr 1
  refine List.filter_congr fun n _ => ?_
  exact (Bool.decide_and _ _).symm

theorem length_shown_le (oam : Memory 256) (height line : Nat) :
    (shown oam height line).length ≤ 8 :=
  List.length_take_le 8 _

theorem reaches_of_mem_shown {oam : Memory 256} {height line n : Nat}
    (h : n ∈ shown oam height line) : (entry oam n).Reaches height line := by
  have hmem := List.mem_of_mem_take h
  exact of_decide_eq_true (List.mem_filter.mp hmem).2

/-- Copying a sprite changes the four bytes of its slot. -/
theorem load_copyTo (oam : Memory 256) (secondary : Memory 32) {slot i k : Nat} (n : Nat)
    (hslot : slot < 8) (hi : i < 8) (hk : k < 4) :
    (copyTo oam secondary slot n).load (4 * i + k) =
      if i = slot then oam.load (4 * n + k) else secondary.load (4 * i + k) := by
  have hunfold : copyTo oam secondary slot n =
      (((secondary.store (4 * slot + 0) (oam.load (4 * n + 0))).store (4 * slot + 1)
        (oam.load (4 * n + 1))).store (4 * slot + 2) (oam.load (4 * n + 2))).store (4 * slot + 3)
        (oam.load (4 * n + 3)) := rfl
  rw [hunfold]
  simp only [Memory.load_store]
  have hcell (j : Nat) (hj : j < 4) :
      (4 * slot + j) % 32 = (4 * i + k) % 32 ↔ i = slot ∧ k = j := by
    omega
  simp only [hcell 0 (by decide), hcell 1 (by decide), hcell 2 (by decide), hcell 3 (by decide)]
  by_cases h : i = slot
  · obtain rfl | rfl | rfl | rfl : k = 0 ∨ k = 1 ∨ k = 2 ∨ k = 3 := by omega
    all_goals simp [h]
  · simp [h]

/-- Copying sprites fills consecutive slots. -/
theorem load_copyAll (oam : Memory 256) (secondary : Memory 32) {slot i k : Nat} (list : List Nat)
    (hfit : slot + list.length ≤ 8) (hi : i < 8) (hk : k < 4) :
    (copyAll oam secondary slot list).load (4 * i + k) =
      if i < slot then secondary.load (4 * i + k)
      else list[i - slot]?.elim (secondary.load (4 * i + k)) fun n => oam.load (4 * n + k) := by
  induction list generalizing secondary slot with
  | nil => simp [copyAll]
  | cons n rest ih =>
    rw [List.length_cons] at hfit
    rw [copyAll, ih _ (by omega), load_copyTo oam secondary n (by omega) hi hk]
    obtain hlt | rfl | hgt := Nat.lt_trichotomy i slot
    · rw [if_pos (by omega), if_pos hlt, if_neg (by omega)]
    · simp
    · have hindex : i - slot = i - (slot + 1) + 1 := by omega
      rw [if_neg (by omega), if_neg (by omega), if_neg (by omega), hindex, List.getElem?_cons_succ]

end Sprite

/-! ## Drawing -/

namespace SpriteLine

/-- A pixel is drawn unless it is transparent or something has been drawn there. -/
theorem get_draw (dots : SpriteLine) (start : Nat) (pixel : UInt8) (behind first : Bool)
    (x : Fin 256) :
    (dots.draw start pixel behind first).get x =
      (dots.get x).or
        (if start = x ∧ pixel ≠ 0 then some ⟨0x10 + pixel, behind, first⟩ else none) := by
  have hget (d : SpriteLine) : d.get x = d[x.val] := rfl
  simp only [draw, hget]
  by_cases hx : start = x
  · subst hx
    rw [dif_pos x.isLt]
    by_cases hpixel : pixel = 0
    · simp [hpixel]
    · cases hold : dots[x.val] with
      | none => simp [hpixel]
      | some old => simp [hold]
  · rw [if_neg fun h => hx h.1, Option.or_none]
    split
    · split
      · exact Vector.getElem_set_ne _ x.isLt hx
      · rfl
    · rfl

/-- Pixels that are drawn one after the other, each below those before. -/
theorem get_foldl_draw (dots : SpriteLine) (start : Nat) (pixel : Fin 8 → UInt8)
    (behind first : Bool) (x : Fin 256) (list : List (Fin 8)) :
    (list.foldl (fun line i => line.draw (start + i) (pixel i) behind first) dots).get x =
      (dots.get x).or (list.findSome? fun i : Fin 8 =>
        if start + i = x ∧ pixel i ≠ 0 then some ⟨0x10 + pixel i, behind, first⟩ else none) := by
  induction list generalizing dots with
  | nil => simp
  | cons i list ih =>
    rw [List.foldl_cons, ih, get_draw, Option.or_assoc, List.findSome?_cons]
    congr 1
    split <;> rfl

/-- A search in which at most one place answers. -/
theorem findSome?_finRange {α : Type} (f : Fin 8 → Option α) (j : Fin 8)
    (h : ∀ i, i ≠ j → f i = none) : (List.finRange 8).findSome? f = f j := by
  cases hj : f j with
  | none =>
    refine List.findSome?_eq_none_iff.mpr fun i _ => ?_
    by_cases hi : i = j
    · rw [hi, hj]
    · exact h i hi
  | some dot =>
    obtain ⟨before, after, hlist, hnot⟩ := List.eq_append_cons_of_mem (List.mem_finRange j)
    exact List.findSome?_eq_some_iff.mpr
      ⟨before, j, after, hlist, hj, fun i hi => h i fun heq => hnot (heq ▸ hi)⟩

/-- Eight pixels below what has been drawn before. -/
theorem get_foldl_draw_finRange (dots : SpriteLine) (start : Nat) (pixel : Fin 8 → UInt8)
    (behind first : Bool) (x : Fin 256) :
    (Fin.foldl 8 (fun line i => line.draw (start + i) (pixel i) behind first) dots).get x =
      (dots.get x).or
        (if h : start ≤ x ∧ x < start + 8 then
          if pixel ⟨x - start, by omega⟩ ≠ 0 then
            some ⟨0x10 + pixel ⟨x - start, by omega⟩, behind, first⟩
          else none
        else none) := by
  rw [Fin.foldl_eq_finRange_foldl, get_foldl_draw]
  congr 1
  split
  · next h =>
    rw [findSome?_finRange _ ⟨x - start, by omega⟩]
    · simp only [show start + (x.val - start) = x by omega, true_and]
    · intro i hi
      refine if_neg fun hat => hi (Fin.ext ?_)
      dsimp only
      omega
  · refine List.findSome?_eq_none_iff.mpr fun i _ => if_neg fun hat => ?_
    omega

end SpriteLine

/-! ## A sprite -/

namespace Sprite

variable {C : Type} [Cartridge C]

/-- How far a line lies below the top of a sprite. -/
theorem toNat_line_sub {line : UInt16} {y : UInt8} (h : y.toNat ≤ line.toNat) :
    (line - y.toUInt16).toNat = line.toNat - y.toNat := by
  have hle : y.toUInt16 ≤ line := by
    rw [UInt16.le_iff_toNat_le, UInt8.toNat_toUInt16]
    exact h
  rw [UInt16.toNat_sub_of_le _ _ hle, UInt8.toNat_toUInt16]

/-- The unit finds the row of a sprite that a line shows. -/
theorem toNat_row (e : SpriteEntry) {height : Nat} {line : UInt16} (hheight : height ≤ 16)
    (h : e.Reaches height line.toNat) :
    (if Byte.bit e.flags 7 then UInt16.ofNat height - 1 - (line - e.y.toUInt16)
      else line - e.y.toUInt16).toNat = e.row height line.toNat ∧
      e.row height line.toNat < height := by
  obtain ⟨hle, hlt⟩ := h
  have hsub := toNat_line_sub hle
  have hlast : (UInt16.ofNat height - 1).toNat = height - 1 := by
    rw [UInt16.toNat_sub_of_le _ _ (by rw [UInt16.le_iff_toNat_le]; simp; omega)]
    simp
    omega
  unfold SpriteEntry.row SpriteEntry.flippedY
  split
  · rw [UInt16.toNat_sub_of_le _ _ (by rw [UInt16.le_iff_toNat_le]; omega), hlast, hsub]
    omega
  · rw [hsub]
    omega

/-- The unit finds the planes of a sprite where they are. -/
theorem toNat_planeAddress (e : SpriteEntry) (control : Control) {row : UInt16} {line : Nat}
    (hrow : row.toNat = e.row control.spriteHeight line) (hlt : row.toNat < control.spriteHeight) :
    (planeAddress control e.tile row).toNat = e.plane control line ∧
      e.plane control line + 8 < 0x2000 := by
  have htile := e.tile.toNat_lt
  unfold planeAddress SpriteEntry.plane
  rw [← hrow]
  unfold Control.spriteHeight at hlt
  split
  · next htall =>
    rw [if_pos htall] at hlt
    by_cases hhalf : 8 ≤ row
    · have hle : 8 ≤ row.toNat := UInt16.le_iff_toNat_le.mp hhalf
      rw [if_pos hhalf]
      simp [UInt16.toNat_add, UInt16.toNat_mul]
      omega
    · have hle : ¬ 8 ≤ row.toNat := fun h => hhalf (UInt16.le_iff_toNat_le.mpr h)
      rw [if_neg hhalf]
      simp [UInt16.toNat_add, UInt16.toNat_mul]
      omega
  · next htall =>
    rw [if_neg htall] at hlt
    unfold Control.spriteTable
    split
    · simp [UInt16.toNat_add, UInt16.toNat_mul]
      omega
    · simp [UInt16.toNat_add, UInt16.toNat_mul]
      omega

end Sprite

/-! ## The fetches -/

namespace Ppu

variable {C : Type} [Cartridge C]

/-- The bytes of the pattern tables as the unit reads them. -/
def patternByte (cartridge : C) (address : Nat) : UInt8 :=
  (Cartridge.ppuRead cartridge (UInt16.ofNat address)).1

/-- Reading the pattern tables does not change the cartridge. -/
def SteadyPattern (cartridge : C) : Prop :=
  ∀ address : UInt16, address < 0x2000 → (Cartridge.ppuRead cartridge address).2 = cartridge

/-- The sprite in a slot of the secondary memory. -/
def slotEntry (ppu : Ppu) (slot : Nat) : SpriteEntry where
  y := ppu.secondaryOam.load (4 * slot)
  tile := ppu.secondaryOam.load (4 * slot + 1)
  flags := ppu.secondaryOam.load (4 * slot + 2)
  x := ppu.secondaryOam.load (4 * slot + 3)

/-- Fetch the sprites of the first slots, one after the other. -/
def fetchSprites (ppu : Ppu) (cartridge : C) : Nat → Ppu × C
  | 0 => (ppu, cartridge)
  | slot + 1 =>
    let (ppu, cartridge) := ppu.fetchSprites cartridge slot
    ppu.fetchSprite cartridge slot

variable {cartridge : C}

theorem readVram_pattern (steady : SteadyPattern cartridge) (ppu : Ppu) {address : UInt16}
    (h : address.toNat < 0x2000) :
    ppu.readVram cartridge address = (patternByte cartridge address.toNat, cartridge) := by
  have hmod : address % 0x4000 = address := by
    apply UInt16.toNat_inj.mp
    rw [UInt16.toNat_mod]
    exact Nat.mod_eq_of_lt (Nat.lt_trans h (by decide))
  have hlow : address < 0x2000 := UInt16.lt_iff_toNat_lt.mpr h
  unfold readVram patternByte
  rw [hmod, if_pos hlow, UInt16.ofNat_toNat]
  exact Prod.ext rfl (steady address hlow)

/-- The pixel that the unit makes of two planes is the one that the sprite shows. -/
theorem pixel_eq (e : SpriteEntry) (pattern : Nat → UInt8) (control : Control) (line : Nat)
    {x : Nat} (hx : e.x.toNat ≤ x ∧ x < e.x.toNat + 8) (first : Bool) :
    (let i := x - e.x.toNat
     let pixel := tilePixel (pattern (e.plane control line)) (pattern (e.plane control line + 8))
       (if Byte.bit e.flags 6 then i else 7 - i) (e.flags % 4)
     if pixel ≠ 0 then some (SpriteDot.mk (0x10 + pixel) e.behind first) else none) =
      e.dotAt pattern control line first x := by
  have hpalette : (e.flags % 4).toNat = e.palette := UInt8.toNat_mod _ _
  have hlt : e.palette < 4 := Nat.mod_lt _ (by decide)
  have hpixel := toNat_tilePixel (pattern (e.plane control line))
    (pattern (e.plane control line + 8)) (e.flags % 4)
    (if Byte.bit e.flags 6 then x - e.x.toNat else 7 - (x - e.x.toNat)) (hpalette ▸ hlt)
  rw [hpalette] at hpixel
  dsimp only
  generalize tilePixel (pattern (e.plane control line)) _ _ _ = pixel at hpixel ⊢
  unfold SpriteEntry.dotAt
  rw [if_pos hx]
  have hcolor : pixel.toNat =
      if e.color pattern control line (x - e.x.toNat) = 0 then 0
      else 4 * e.palette + e.color pattern control line (x - e.x.toNat) := hpixel
  dsimp only
  by_cases hzero : e.color pattern control line (x - e.x.toNat) = 0
  · rw [if_pos hzero] at hcolor ⊢
    exact if_neg fun h => h (UInt8.toNat_inj.mp hcolor)
  · rw [if_neg hzero] at hcolor ⊢
    have hne : pixel ≠ 0 := by
      rintro rfl
      simp at hcolor
      omega
    rw [if_pos hne, Nat.add_assoc, ← hcolor, UInt8.ofNat_add, UInt8.ofNat_toNat]
    rfl

/-- Drawing a sprite, given the planes that are read. -/
theorem drawSprite_of_planes (ppu : Ppu) {slot : Nat} {row plane : UInt16} {plane0 plane1 : UInt8}
    (hplane : Sprite.planeAddress ppu.control (ppu.slotEntry slot).tile
      (if Byte.bit (ppu.slotEntry slot).flags 7 then
        UInt16.ofNat ppu.control.spriteHeight - 1 - row else row) = plane)
    (h0 : ppu.readVram cartridge plane = (plane0, cartridge))
    (h1 : ppu.readVram cartridge (plane + 8) = (plane1, cartridge)) :
    ppu.drawSprite cartridge slot row =
      ({ ppu with
          spriteLine := Fin.foldl 8 (fun dots (i : Fin 8) =>
            dots.draw ((ppu.slotEntry slot).x.toNat + i)
              (tilePixel plane0 plane1
                (if Byte.bit (ppu.slotEntry slot).flags 6 then i.val else 7 - i.val)
                ((ppu.slotEntry slot).flags % 4))
              (ppu.slotEntry slot).behind (slot == 0 && ppu.search.first)) ppu.spriteLine },
        cartridge) := by
  have hread : Sprite.planeAddress ppu.control (ppu.secondaryOam.load (4 * slot + 1))
      (if Byte.bit (ppu.secondaryOam.load (4 * slot + 2)) 7 then
        UInt16.ofNat ppu.control.spriteHeight - 1 - row else row) = plane := hplane
  unfold drawSprite
  dsimp only
  rw [hread, h0]
  dsimp only
  rw [h1]
  rfl

/-- A sprite that reaches the line is drawn below the sprites before it. -/
theorem drawSprite_eq (steady : SteadyPattern cartridge) (ppu : Ppu) (slot : Nat)
    (hreach : (ppu.slotEntry slot).Reaches ppu.control.spriteHeight ppu.search.line.toNat) :
    ∃ dots : SpriteLine,
      ppu.drawSprite cartridge slot (ppu.search.line - (ppu.slotEntry slot).y.toUInt16) =
        ({ ppu with spriteLine := dots }, cartridge) ∧
      ∀ x : Fin 256, dots.get x = (ppu.spriteLine.get x).or
        ((ppu.slotEntry slot).dotAt (patternByte cartridge) ppu.control ppu.search.line.toNat
          (slot == 0 && ppu.search.first) x) := by
  obtain ⟨hrow, hlt⟩ :=
    Sprite.toNat_row (ppu.slotEntry slot) ppu.control.spriteHeight_le hreach
  obtain ⟨hplane, hend⟩ :=
    Sprite.toNat_planeAddress (ppu.slotEntry slot) ppu.control hrow (hrow ▸ hlt)
  generalize haddress : Sprite.planeAddress _ _ _ = address at hplane
  have hnext : (address + 8).toNat = address.toNat + 8 := by
    rw [UInt16.toNat_add, hplane]
    exact Nat.mod_eq_of_lt (Nat.lt_trans hend (by decide))
  have h0 := readVram_pattern steady ppu (hplane ▸ Nat.lt_of_add_right_lt hend)
  have h1 := readVram_pattern steady ppu (by rw [hnext, hplane]; exact hend)
  rw [hnext, hplane] at h1
  rw [hplane] at h0
  refine ⟨_, drawSprite_of_planes ppu haddress h0 h1, fun x => ?_⟩
  rw [SpriteLine.get_foldl_draw_finRange]
  congr 1
  split
  · next hx => exact pixel_eq _ _ _ _ hx _
  · next hx => exact (if_neg hx).symm

/-- Fetching the sprite in a slot, if there is one. -/
theorem fetchSprite_eq (steady : SteadyPattern cartridge) (ppu : Ppu) {slot : Nat}
    (hclear : slot = 0 → ppu.spriteLine = .empty)
    (hreach : slot < ppu.search.count.val →
      (ppu.slotEntry slot).Reaches ppu.control.spriteHeight ppu.search.line.toNat) :
    ∃ dots : SpriteLine,
      ppu.fetchSprite cartridge slot = ({ ppu with spriteLine := dots }, cartridge) ∧
      ∀ x : Fin 256, dots.get x = (ppu.spriteLine.get x).or
        (if slot < ppu.search.count.val then
          (ppu.slotEntry slot).dotAt (patternByte cartridge) ppu.control ppu.search.line.toNat
            (slot == 0 && ppu.search.first) x
        else none) := by
  have hstart : (if slot = 0 then ppu.clearSpriteLine else ppu) = ppu := by
    split
    · next h => rw [clearSpriteLine, ← hclear h]
    · rfl
  unfold fetchSprite
  rw [hstart]
  dsimp only
  by_cases hslot : slot < ppu.search.count.val
  · obtain ⟨hle, hlt⟩ := hreach hslot
    have hrow : (ppu.search.line - (ppu.slotEntry slot).y.toUInt16).toNat <
        ppu.control.spriteHeight := by
      rw [Sprite.toNat_line_sub hle]
      omega
    obtain ⟨dots, hdraw, hdots⟩ := drawSprite_eq steady ppu slot (hreach hslot)
    rw [if_pos hslot]
    refine ⟨dots, ?_, fun x => ?_⟩
    · exact (if_pos hrow).trans hdraw
    · rw [hdots, if_pos hslot]
  · rw [if_neg hslot]
    exact ⟨ppu.spriteLine, rfl, fun x => by rw [if_neg hslot, Option.or_none]⟩

/-- The fetches start with an empty line. -/
theorem fetchSprites_clear (ppu : Ppu) (cartridge : C) (n : Nat) :
    ppu.fetchSprites cartridge (n + 1) = ppu.clearSpriteLine.fetchSprites cartridge (n + 1) := by
  induction n with
  | zero => rfl
  | succ n ih =>
    rw [fetchSprites, ih]
    rfl

/-- The first fetches draw the sprites of their slots, each below those before. -/
theorem fetchSprites_eq (steady : SteadyPattern cartridge) (ppu : Ppu)
    (hclear : ppu.spriteLine = .empty) {n : Nat}
    (hreach : ∀ slot < ppu.search.count.val,
      (ppu.slotEntry slot).Reaches ppu.control.spriteHeight ppu.search.line.toNat) :
    ∃ dots : SpriteLine,
      ppu.fetchSprites cartridge n = ({ ppu with spriteLine := dots }, cartridge) ∧
      ∀ x : Fin 256, dots.get x = (List.range n).findSome? fun slot =>
        if slot < ppu.search.count.val then
          (ppu.slotEntry slot).dotAt (patternByte cartridge) ppu.control ppu.search.line.toNat
            (slot == 0 && ppu.search.first) x
        else none := by
  induction n with
  | zero => exact ⟨ppu.spriteLine, rfl, fun x => by rw [hclear]; exact Vector.getElem_replicate ..⟩
  | succ n ih =>
    obtain ⟨dots, hfetch, hdots⟩ := ih
    have hstart : n = 0 → dots = .empty := by
      rintro rfl
      have hline : ppu.spriteLine = dots := congrArg (·.1.spriteLine) hfetch
      exact hline.symm.trans hclear
    obtain ⟨dots', hfetch', hdots'⟩ :=
      fetchSprite_eq steady { ppu with spriteLine := dots } hstart (hreach n)
    refine ⟨dots', ?_, fun x => ?_⟩
    · rw [fetchSprites, hfetch]
      exact hfetch'
    · rw [hdots', List.range_succ, List.findSome?_append, List.findSome?_singleton]
      exact congrArg (Option.or · _) (hdots x)

/-! ## The whole line -/

/-- A search over slots is a search over what is in them. -/
theorem findSome?_range {α β : Type} (list : List α) (f : α → Option β) (g : Nat → Option β)
    (h : ∀ slot (hslot : slot < list.length), g slot = f list[slot]) (n : Nat) :
    (List.range n).findSome? (fun slot => if slot < list.length then g slot else none) =
      (list.take n).findSome? f := by
  induction n with
  | zero => simp
  | succ n ih =>
    rw [List.range_succ, List.findSome?_append, ih, List.take_add_one, List.findSome?_append,
      List.findSome?_singleton]
    by_cases hn : n < list.length
    · rw [if_pos hn, h n hn, List.getElem?_eq_getElem hn, Option.toList_some,
        List.findSome?_singleton]
    · rw [if_neg hn, List.getElem?_eq_none (Nat.le_of_not_lt hn)]
      rfl

/-- The first sprite of sprite memory can only be in the first slot. -/
theorem first_slot (oam : Memory 256) (height line slot : Nat)
    (hslot : slot < (Sprite.shown oam height line).length) :
    (slot == 0 && (Sprite.shown oam height line).head? == some 0) =
      ((Sprite.shown oam height line)[slot] == 0) := by
  have hsorted : (Sprite.shown oam height line).Pairwise (· < ·) :=
    (List.pairwise_lt_range.filter _).take
  cases slot with
  | zero =>
    rw [List.head?_eq_getElem?, List.getElem?_eq_getElem hslot]
    simp
  | succ slot =>
    have hlt := List.pairwise_iff_getElem.mp hsorted 0 (slot + 1) (by omega) hslot (by omega)
    have hne : (Sprite.shown oam height line)[slot + 1] ≠ 0 := by omega
    simp [hne]

/-- What a search finds in an empty secondary memory. -/
theorem searchSprites_spec (ppu : Ppu) (line : UInt16) :
    let chosen := Sprite.shown ppu.oam ppu.control.spriteHeight line.toNat
    let found := ppu.clearSecondaryOam.searchSprites line
    found.control = ppu.control ∧ found.search.line = line ∧
      found.search.count.val = chosen.length ∧
      found.search.first = (chosen.head? == some 0) ∧
      ∀ slot < 8, ∀ k < 4, found.secondaryOam.load (4 * slot + k) =
        chosen[slot]?.elim 0xFF fun n => ppu.oam.load (4 * n + k) := by
  intro chosen found
  have htake : (Sprite.candidates ppu.oam ppu.control.spriteHeight line).take 8 = chosen :=
    Sprite.take_candidates ppu.oam ppu.control.spriteHeight line
  refine ⟨rfl, rfl, congrArg List.length htake, ?_, fun slot hslot k hk => ?_⟩
  · have hhead : chosen.head? =
        (Sprite.candidates ppu.oam ppu.control.spriteHeight line).head? := by
      rw [← htake, List.head?_take, if_neg (by decide)]
    rw [hhead]
    rfl
  · have hfit : 0 + chosen.length ≤ 8 := by
      rw [Nat.zero_add]
      exact Sprite.length_shown_le ..
    have hcopy : found.secondaryOam = Sprite.copyAll ppu.oam noSprites 0 chosen :=
      congrArg (Sprite.copyAll ppu.oam noSprites 0) htake
    rw [hcopy, Sprite.load_copyAll _ _ chosen hfit hslot hk, if_neg (Nat.not_lt_zero _), noSprites,
      Memory.load_filled, Nat.sub_zero]

/-- What the eight fetches make of what a search has found. -/
theorem fetchSprites_of_found (steady : SteadyPattern cartridge) (found : Ppu) (oam : Memory 256)
    {chosen : List Nat}
    (hchosen : chosen = Sprite.shown oam found.control.spriteHeight found.search.line.toNat)
    (hcount : found.search.count.val = chosen.length)
    (hfirst : found.search.first = (chosen.head? == some 0))
    (hmemory : ∀ slot < 8, ∀ k < 4, found.secondaryOam.load (4 * slot + k) =
      chosen[slot]?.elim 0xFF fun n => oam.load (4 * n + k)) :
    ∃ dots : SpriteLine,
      found.fetchSprites cartridge 8 = ({ found with spriteLine := dots }, cartridge) ∧
      ∀ x : Fin 256, dots.get x =
        Sprite.lineDot oam (patternByte cartridge) found.control found.search.line.toNat x := by
  have hlength : chosen.length ≤ 8 := by
    rw [hchosen]
    exact Sprite.length_shown_le ..
  have hentry (slot : Nat) (hslot : slot < chosen.length) :
      found.slotEntry slot = Sprite.entry oam chosen[slot] := by
    have hbyte (k : Nat) (hk : k < 4) := by
      have hload := hmemory slot (Nat.lt_of_lt_of_le hslot hlength) k hk
      rw [List.getElem?_eq_getElem hslot] at hload
      exact hload
    unfold slotEntry Sprite.entry
    rw [SpriteEntry.mk.injEq]
    exact ⟨hbyte 0 (by decide), hbyte 1 (by decide), hbyte 2 (by decide), hbyte 3 (by decide)⟩
  have hreach : ∀ slot < found.search.count.val,
      (found.slotEntry slot).Reaches found.control.spriteHeight found.search.line.toNat := by
    intro slot hslot
    rw [hcount] at hslot
    rw [hentry slot hslot]
    exact Sprite.reaches_of_mem_shown (hchosen ▸ List.getElem_mem hslot)
  obtain ⟨dots, hfetch, hdots⟩ := fetchSprites_eq steady found.clearSpriteLine rfl hreach (n := 8)
  refine ⟨dots, (fetchSprites_clear found cartridge 7).trans hfetch, fun x => ?_⟩
  have hslots := findSome?_range chosen
    (fun n => (Sprite.entry oam n).dotAt (patternByte cartridge) found.control
      found.search.line.toNat (n == 0) x)
    (fun slot => (found.slotEntry slot).dotAt (patternByte cartridge) found.control
      found.search.line.toNat (slot == 0 && found.search.first) x) (fun slot hslot => ?_) 8
  · rw [List.take_of_length_le hlength, ← hcount, hchosen] at hslots
    rw [hdots x]
    exact hslots
  · subst hchosen
    rw [hentry slot hslot, hfirst, first_slot _ _ _ _ hslot]

/-- Clearing the secondary memory, searching for the sprites of a line and fetching the eight slots
leaves the sprites of the line in secondary memory, and on the sprite line what they show. -/
theorem fetchSprites_eq_shown (steady : SteadyPattern cartridge) (ppu : Ppu) (line : UInt16) :
    let chosen := Sprite.shown ppu.oam ppu.control.spriteHeight line.toNat
    let done := ((ppu.clearSecondaryOam.searchSprites line).fetchSprites cartridge 8).1
    done.search.count.val = chosen.length ∧
      (∀ slot < 8, ∀ k < 4, done.secondaryOam.load (4 * slot + k) =
        chosen[slot]?.elim 0xFF fun n => ppu.oam.load (4 * n + k)) ∧
      ∀ x : Fin 256, done.spriteLine.get x =
        Sprite.lineDot ppu.oam (patternByte cartridge) ppu.control line.toNat x := by
  obtain ⟨hcontrol, hline, hcount, hfirst, hmemory⟩ := searchSprites_spec ppu line
  obtain ⟨dots, hfetch, hdots⟩ := fetchSprites_of_found steady _ ppu.oam
    (by rw [hcontrol, hline]) hcount hfirst hmemory
  rw [hcontrol, hline] at hdots
  rw [hfetch]
  exact ⟨hcount, hmemory, hdots⟩

/-- On a board whose pattern memory is all ones, the first sprite shows its third colour. -/
theorem fetchSprites_solid_sprite :
    let board := Nrom.new #[] #[0xFF] .horizontal
    let oam := (((Memory.filled 256 0xFF).store 0 4).store 2 0x22).store 3 10
    let ppu := { powerOn .ntsc with oam }
    SteadyPattern board ∧
      ((ppu.clearSecondaryOam.searchSprites 5).fetchSprites board 8).1.spriteLine.get 12 =
        some ⟨0x1B, true, true⟩ := by
  intro board oam ppu
  have steady : SteadyPattern board := fun _ _ => rfl
  exact ⟨steady, ((fetchSprites_eq_shown steady ppu 5).2.2 12).trans (by decide +kernel)⟩

end Ppu

end Famicom
