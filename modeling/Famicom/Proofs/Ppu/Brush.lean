import Famicom.Console.Schedule
import Famicom.Proofs.Ppu.Picture

/-!
# Painting the background

While no register changes, the background needs little of the unit's state: the address, the two
tiles that are held, and the frame. `Brush` is that much, and the steps of a line move it over the
picture.

* `Paints.step`: a step of the unit moves its brush.
* `Brush.At`: a brush that holds the two tiles at a place, ready to fetch the next.
* `Brush.run_visible`: a line of the picture draws its row and leads to the next.
* `Brush.run_preRender`: the line before the picture leads to the first row.
-/

namespace Famicom

/-- What moves while the background is painted. -/
structure Brush where
  v : VramAddress
  window : TileWindow
  frame : Frame
  /-- Whether the unit renders. -/
  rendering : Bool

/-- The unit and the board paint what the given ones would, with the brush where it is. -/
structure Paints (given : Ppu) (slot : Nrom) (brush : Brush) (ppu : Ppu) (board : Nrom) : Prop where
  control : ppu.control = given.control
  mask : ppu.mask = given.mask
  standard : ppu.standard = given.standard
  t : ppu.t = given.t
  fineX : ppu.fineX = given.fineX
  ciram : ppu.ciram = given.ciram
  palette : ppu.palette = given.palette
  pattern : board.pattern = slot.pattern
  mirroring : board.mirroring = slot.mirroring
  nametables : board.nametables = slot.nametables
  v : ppu.v = brush.v
  window : ppu.background = brush.window
  frame : ppu.frame = brush.frame
  rendering : ppu.rendering = brush.rendering

theorem Mask.rendering_of_showBackground {mask : Mask} (h : mask.showBackground = true) :
    mask.rendering = true := by
  unfold rendering
  rw [h, Bool.true_or]

namespace Ppu

/-- The palette entry of a background pixel, given the tiles that are held. -/
def entryIn (ppu : Ppu) (window : TileWindow) (tile : Fin 32) (i : Fin 8) : UInt8 :=
  if layerShows ppu.mask.showBackground ppu.mask.backgroundLeft (tileColumn tile i) then
    window.pixel ppu.fineX i
  else 0

/-- The frame with eight background pixels drawn. -/
def drawIn (ppu : Ppu) (window : TileWindow) (frame : Frame) (line : Fin 240) (tile : Fin 32) :
    Frame :=
  Fin.foldl 8 (fun frame i => frame.setPixel (tileColumn tile i) line
    (ppu.paletteColor (ppu.entryIn window tile i)) ppu.emphasis) frame

end Ppu

namespace Brush

variable (given : Ppu) (slot : Nrom)

/-- How a step moves the brush. -/
def step (brush : Brush) : PpuStep → Brush
  | .drawTile line tile =>
    { brush with frame := given.drawIn brush.window brush.frame line tile }
  | .fetchColumn =>
    { brush with
      v := brush.v.nextColumn
      window := brush.window.shift (given.lineAt slot brush.v) }
  | .nextRow => { brush with v := brush.v.nextRow.withColumnOf given.t }
  | .reloadRow => { brush with v := brush.v.withRowOf given.t }
  | .clearSecondaryOam | .searchSprites _ | .fetchSprite _ | .clearSpriteLine => brush

/-- How events move the brush. -/
def run (brush : Brush) (events : List Event) : Brush :=
  events.foldl (fun brush event => brush.step given slot event.step) brush

variable {given slot}

/-- No step decides whether the unit renders. -/
theorem rendering_run (brush : Brush) (events : List Event) :
    (brush.run given slot events).rendering = brush.rendering := by
  induction events generalizing brush with
  | nil => rfl
  | cons event events ih =>
    have hstep : (brush.step given slot event.step).rendering = brush.rendering := by
      cases event.step <;> rfl
    exact (ih _).trans hstep

end Brush

/-! ## The unit moves its brush -/

namespace Paints

variable {given ppu : Ppu} {slot board : Nrom} {brush : Brush}

theorem paletteColor (h : Paints given slot brush ppu board) (entry : UInt8) :
    ppu.paletteColor entry = given.paletteColor entry := by
  unfold Ppu.paletteColor
  rw [h.palette, h.mask]

theorem readVram (h : Paints given slot brush ppu board) (address : UInt16) :
    (ppu.readVram board address).1 = (given.readVram slot address).1 := by
  have hfour : board.fourScreen = slot.fourScreen := by
    unfold Nrom.fourScreen
    rw [h.mirroring]
  have hload (a : UInt16) : board.ppuLoad a = slot.ppuLoad a := by
    unfold Nrom.ppuLoad
    rw [h.pattern, h.nametables, hfour]
  rw [Ppu.readVram_fst, Ppu.readVram_fst]
  simp only [hload, hfour, h.mirroring, h.ciram, h.paletteColor]

theorem lineAt (h : Paints given slot brush ppu board) (v : VramAddress) :
    ppu.lineAt board v = given.lineAt slot v := by
  unfold Ppu.lineAt
  simp only [h.readVram, h.control]

/-- Without sprites, the unit draws the background alone. -/
theorem drawTile_frame (h : Paints given slot brush ppu board)
    (hsprites : given.mask.showSprites = false) (line : Fin 240) (tile : Fin 32) :
    (ppu.drawTile line tile).frame = given.drawIn brush.window brush.frame line tile := by
  have hcolor (i : Fin 8) :
      ppu.colorAt tile i = given.paletteColor (given.entryIn brush.window tile i) := by
    have hsprite : ppu.spriteAt (tileColumn tile i) = none := by
      unfold Ppu.spriteAt Ppu.layerShows
      rw [h.mask, hsprites]
      rfl
    unfold Ppu.colorAt Ppu.backgroundAt Ppu.entryIn
    rw [hsprite, h.paletteColor, h.mask, h.window, h.fineX]
    rfl
  have hemphasis : ppu.emphasis = given.emphasis := by
    unfold Ppu.emphasis
    rw [h.standard, h.mask]
  unfold Ppu.drawTile Ppu.drawIn
  dsimp only
  rw [h.frame, hemphasis]
  congr 1
  funext frame i
  have hget : (Vector.ofFn (ppu.colorAt tile)).get i = ppu.colorAt tile i :=
    Vector.getElem_ofFn i.isLt
  rw [hget, hcolor]

/-- Without sprites, a step of the unit moves the brush. -/
theorem step (h : Paints given slot brush ppu board) (hsprites : given.mask.showSprites = false)
    (s : PpuStep) :
    Paints given slot (brush.step given slot s) (s.run ppu board).1 (s.run ppu board).2 := by
  cases s with
  | clearSecondaryOam => exact { h with }
  | searchSprites line => exact { h with }
  | clearSpriteLine => exact { h with }
  | reloadRow =>
    have hv : ppu.v.withRowOf ppu.t = brush.v.withRowOf given.t := by rw [h.v, h.t]
    exact { h with v := hv }
  | nextRow =>
    have hv : ppu.v.nextRow.withColumnOf ppu.t = brush.v.nextRow.withColumnOf given.t := by
      rw [h.v, h.t]
    exact { h with v := hv }
  | fetchColumn =>
    have hfetch : ppu.fetchColumn board =
        ({ ppu with
            v := ppu.v.nextColumn
            background := ppu.background.shift (ppu.lineAt board ppu.v) }, board) := by
      rw [Ppu.fetchColumn, Ppu.fetchTile_eq]
      rfl
    have hv : ppu.v.nextColumn = brush.v.nextColumn := by rw [h.v]
    have hwindow : ppu.background.shift (ppu.lineAt board ppu.v) =
        brush.window.shift (given.lineAt slot brush.v) := by
      rw [h.lineAt, h.window, h.v]
    rw [PpuStep.run, hfetch]
    exact { h with v := hv, window := hwindow }
  | fetchSprite n =>
    obtain ⟨dots, hfetch⟩ := ppu.fetchSprite_board board n
    rw [PpuStep.run, hfetch]
    exact { h with }
  | drawTile line tile =>
    exact { h with frame := h.drawTile_frame hsprites line tile }

end Paints

/-! ## The brush at a place -/

/-- The tile column of a pixel column. -/
def tileOf (x : Fin 256) : Fin 32 := ⟨x / 8, by omega⟩

/-- The place of a pixel column within its tile column. -/
def dotOf (x : Fin 256) : Fin 8 := ⟨x % 8, by omega⟩

/-- A fold over the first numbers, one after the other. -/
theorem foldl_finRange_induction {α : Type} {n : Nat} {f : α → Fin n → α} {P : Nat → α → Prop}
    (step : ∀ (i : Fin n) (a : α), P i a → P (i + 1) (f a i)) {a : α} (h : P 0 a) :
    P n ((List.finRange n).foldl f a) := by
  rw [← Fin.foldl_eq_finRange_foldl]
  induction n with
  | zero => exact h
  | succ n ih =>
    rw [Fin.foldl_succ_last]
    exact step (Fin.last n) _ (ih fun i a ha => step i.castSucc a ha)

/-- A pixel word is its two numbers, side by side. -/
theorem pixelWord_eq {color emphasis : UInt8} (hc : color.toNat < 64) (he : emphasis.toNat < 8) :
    pixelWord color emphasis = emphasis.toUInt16 <<< 6 ||| color.toUInt16 := by
  have hor : (emphasis.toUInt16 <<< 6 ||| color.toUInt16).toNat =
      emphasis.toNat * 64 + color.toNat := by
    have hshift : emphasis.toNat <<< 6 < 2 ^ 16 := by
      rw [Nat.shiftLeft_eq]
      omega
    rw [UInt16.toNat_or, UInt16.toNat_shiftLeft, UInt8.toNat_toUInt16, UInt8.toNat_toUInt16]
    show emphasis.toNat <<< 6 % 2 ^ 16 ||| color.toNat = _
    rw [Nat.mod_eq_of_lt hshift, ← Nat.shiftLeft_add_eq_or_of_lt (i := 6) hc, Nat.shiftLeft_eq]
  rw [← UInt16.toNat_inj, hor, pixelWord]
  simp only [UInt16.toNat_add, UInt16.toNat_mul, UInt8.toNat_toUInt16, UInt8.toNat_mod,
    UInt8.reduceToNat, UInt16.reduceToNat]
  omega

namespace Frame

/-- Drawing a pixel changes its word. -/
theorem word_setPixel (frame : Frame) (x x' : Fin 256) (y y' : Fin 240) (color emphasis : UInt8) :
    (frame.setPixel x y color emphasis).word x' y' =
      if x' = x ∧ y' = y then pixelWord color emphasis else frame.word x' y' := by
  have hposition : position x y = position x' y' ↔ x' = x ∧ y' = y := by
    unfold position
    rw [Fin.mk.injEq, Fin.ext_iff, Fin.ext_iff]
    omega
  unfold setPixel word
  show (frame.words.set (position x y) _)[(position x' y').val] = _
  rw [Vector.getElem_set]
  simp only [Fin.val_inj, hposition]
  rfl

/-- Drawing the pixels of a tile column changes its eight words on the line. -/
theorem word_drawColumn (frame : Frame) (line : Fin 240) (tile : Fin 32) (color : Fin 8 → UInt8)
    (emphasis : UInt8) (x : Fin 256) (y : Fin 240) :
    (Fin.foldl 8 (fun frame i => frame.setPixel (tileColumn tile i) line (color i) emphasis)
        frame).word x y =
      if y = line ∧ x.val / 8 = tile then pixelWord (color (dotOf x)) emphasis
      else frame.word x y := by
  rw [Fin.foldl_eq_finRange_foldl]
  have hfold := foldl_finRange_induction (n := 8) (a := frame)
    (f := fun frame i => frame.setPixel (tileColumn tile i) line (color i) emphasis)
    (P := fun n drawn => drawn.word x y =
      if y = line ∧ x.val / 8 = tile ∧ x.val % 8 < n then
        pixelWord (color (dotOf x)) emphasis
      else frame.word x y)
    (fun i drawn hdrawn => ?_) ?_
  · rw [hfold]
    simp only [Nat.mod_lt x.val (by decide : 8 > 0), and_true]
  · have hcolumn : x = tileColumn tile i ↔ x.val / 8 = tile ∧ x.val % 8 = i := by
      rw [tileColumn, Fin.ext_iff]
      dsimp only
      omega
    rw [word_setPixel, hdrawn]
    simp only [hcolumn]
    by_cases hat : (x.val / 8 = tile ∧ x.val % 8 = i) ∧ y = line
    · obtain ⟨⟨htile, hi⟩, hline⟩ := hat
      have hindex : dotOf x = i := Fin.ext hi
      rw [if_pos ⟨⟨htile, hi⟩, hline⟩, if_pos ⟨hline, htile, by omega⟩, hindex]
    · rw [if_neg hat]
      by_cases hbefore : y = line ∧ x.val / 8 = tile ∧ x.val % 8 < i
      · rw [if_pos hbefore, if_pos ⟨hbefore.1, hbefore.2.1, by omega⟩]
      · rw [if_neg hbefore, if_neg]
        rintro ⟨hline, htile, hlt⟩
        have hne : x.val % 8 ≠ i := fun hi => hat ⟨⟨htile, hi⟩, hline⟩
        exact hbefore ⟨hline, htile, by omega⟩
  · simp

end Frame

namespace Ppu

theorem toNat_paletteColor_lt (ppu : Ppu) (entry : UInt8) :
    (ppu.paletteColor entry).toNat < 64 := by
  have hcolor : (ppu.palette.load (paletteIndex entry.toNat) % 0x40).toNat < 64 := by
    rw [UInt8.toNat_mod]
    exact Nat.mod_lt _ (by decide)
  unfold paletteColor
  dsimp only
  split
  · have hle := Nat.and_le_left (n := (ppu.palette.load (paletteIndex entry.toNat) % 0x40).toNat)
      (m := 0x30)
    rw [UInt8.toNat_and]
    exact Nat.lt_of_le_of_lt hle hcolor
  · exact hcolor

theorem toNat_emphasis_lt (ppu : Ppu) : ppu.emphasis.toNat < 8 := by
  have hbits : ppu.mask.emphasisBits.toNat < 8 := by
    rw [Mask.emphasisBits, UInt8.toNat_div]
    have hbyte := ppu.mask.byte.toNat_lt
    show _ / 32 < 8
    omega
  unfold emphasis VideoStandard.emphasis
  split
  · exact hbits
  · have hred : ppu.mask.emphasisBits.toNat / 4 ≤ 1 := by omega
    have hgreen : ppu.mask.emphasisBits.toNat % 2 ≤ 1 := by omega
    have hblue : ppu.mask.emphasisBits.toNat / 2 % 2 ≤ 1 := by omega
    simp only [UInt8.toNat_add, UInt8.toNat_mul, UInt8.toNat_div, UInt8.toNat_mod,
      UInt8.reduceToNat]
    generalize ppu.mask.emphasisBits.toNat / 4 = red at *
    generalize ppu.mask.emphasisBits.toNat % 2 = green at *
    generalize ppu.mask.emphasisBits.toNat / 2 % 2 = blue at *
    omega

/-- Drawing a tile column changes its eight words on the line. -/
theorem word_drawIn (given : Ppu) (window : TileWindow) (frame : Frame) (line : Fin 240)
    (tile : Fin 32) (x : Fin 256) (y : Fin 240) :
    (given.drawIn window frame line tile).word x y =
      if y = line ∧ x.val / 8 = tile then
        pixelWord (given.paletteColor (given.entryIn window tile ⟨x % 8, by omega⟩)) given.emphasis
      else frame.word x y :=
  frame.word_drawColumn line tile _ given.emphasis x y

end Ppu

/-! ## Moving over the picture -/

namespace Brush

variable {given : Ppu} {slot : Nrom} {brush : Brush} {row column : Nat}

/-- The brush holds two tiles at a place and will fetch the one after them. -/
structure At (given : Ppu) (slot : Nrom) (row column : Nat) (brush : Brush) : Prop where
  v : brush.v = .place row ((column + 2) % 64)
  left : brush.window.left = given.lineAt slot (.place row (column % 64))
  right : brush.window.right = given.lineAt slot (.place row ((column + 1) % 64))

/-- The pixels that are held are those of the picture. -/
theorem At.pixel (h : brush.At given slot row column) (hr : row < 480) (i : Fin 8) :
    (brush.window.pixel given.fineX i).toNat =
      Picture.pixel (given.vramByte slot) given.control row
        ((8 * column + given.fineX + i) % 512) := by
  have hget (pixels : TileLine) (n : Nat) (hn : n < 8) : pixels[n] = pixels.get ⟨n, hn⟩ := rfl
  unfold TileWindow.pixel
  split
  · next hleft =>
    rw [h.left, hget, Ppu.lineAt_place given slot hr (Nat.mod_lt _ (by decide))]
    congr 1
    dsimp only
    omega
  · next hright =>
    rw [h.right, hget _ _ (by omega), Ppu.lineAt_place given slot hr (Nat.mod_lt _ (by decide))]
    congr 1
    dsimp only
    omega

/-- A fetch moves the brush one tile on. -/
theorem At.fetch (h : brush.At given slot row column) :
    (brush.step given slot .fetchColumn).At given slot row (column + 1) where
  v := by
    show brush.v.nextColumn = _
    rw [h.v, VramAddress.nextColumn_place]
    congr 1
    omega
  left := h.right
  right := by
    show given.lineAt slot brush.v = _
    rw [h.v]

/-- Two fetches from the head of a row. -/
theorem at_of_two_fetches (hv : brush.v = .place row column) (hc : column < 64) :
    ((brush.step given slot .fetchColumn).step given slot .fetchColumn).At given slot row
      column where
  v := by
    show brush.v.nextColumn.nextColumn = _
    rw [hv, VramAddress.nextColumn_place, VramAddress.nextColumn_place]
    congr 1
    omega
  left := by
    show given.lineAt slot brush.v = _
    rw [hv, Nat.mod_eq_of_lt hc]
  right := by
    show given.lineAt slot brush.v.nextColumn = _
    rw [hv, VramAddress.nextColumn_place]

/-- The word of a background pixel, given the row and the column of the picture at which the line
begins. -/
def rowWord (given : Ppu) (slot : Nrom) (row column : Nat) (x : Fin 256) : UInt16 :=
  let entry := if x.val < 8 ∧ given.mask.backgroundLeft = false then 0
    else Picture.pixel (given.vramByte slot) given.control row
      ((8 * column + given.fineX + x) % 512)
  pixelWord (given.paletteColor (UInt8.ofNat entry)) given.emphasis

/-- The rows from the one at which pictures begin fill the screen. -/
theorem rowWord_eq (given : Ppu) (slot : Nrom) (x : Fin 256) (y : Fin 240) :
    rowWord given slot ((given.t.row + y) % 480) given.t.column x =
      given.backgroundWord slot x y := by
  have hcolumn : 8 * given.t.column + given.fineX + x =
      256 * given.t.nametableX.toNat + 8 * given.t.coarseX.toNat + given.fineX + x := by
    rw [VramAddress.column]
    omega
  unfold rowWord Ppu.backgroundWord
  rw [pixelWord_eq (given.toNat_paletteColor_lt _) given.toNat_emphasis_lt, hcolumn]
  rfl

/-- Eight pixels are drawn from the two tiles that are held. -/
theorem At.word_draw {j : Fin 32} (h : brush.At given slot row (column + j)) (hr : row < 480)
    (hshown : given.mask.showBackground = true) (line : Fin 240) (x : Fin 256) (y : Fin 240) :
    (brush.step given slot (.drawTile line j)).frame.word x y =
      if y = line ∧ x.val / 8 = j then rowWord given slot row column x
      else brush.frame.word x y := by
  show (given.drawIn brush.window brush.frame line j).word x y = _
  rw [Ppu.word_drawIn]
  split
  · next hat =>
    obtain ⟨-, htile⟩ := hat
    have hcolumn : tileColumn j ⟨x % 8, Nat.mod_lt _ (by decide)⟩ = x := by
      unfold tileColumn
      rw [Fin.ext_iff]
      dsimp only
      omega
    have hpixel := h.pixel hr ⟨x % 8, Nat.mod_lt _ (by decide)⟩
    have hplace : (8 * (column + j) + given.fineX + x.val % 8) % 512 =
        (8 * column + given.fineX + x) % 512 := by omega
    unfold rowWord Ppu.entryIn Ppu.layerShows
    rw [hcolumn, hshown, Bool.true_and]
    by_cases hhidden : x.val < 8 ∧ given.mask.backgroundLeft = false
    · obtain ⟨hx, hleft⟩ := hhidden
      have hnot : ¬ 8 ≤ x.val := by omega
      simp [hx, hleft, hnot]
    · have hvisible : (decide (8 ≤ x.val) || given.mask.backgroundLeft) = true := by
        by_cases hx : 8 ≤ x.val
        · simp [hx]
        · have hleft : given.mask.backgroundLeft ≠ false := fun hl => hhidden ⟨by omega, hl⟩
          simp [hleft]
      rw [if_pos hvisible, if_neg hhidden, ← hplace, ← hpixel]
      dsimp only
      rw [UInt8.ofNat_toNat]
  · rfl

/-- At a tile column of the picture, the unit draws and fetches. -/
theorem run_tileSteps (brush : Brush) (line : Fin 240) (tile : Fin 32) :
    brush.run given slot
      (((Line.visible line).tileSteps true tile).map fun step => ⟨8 * tile, step⟩) =
      (brush.step given slot (.drawTile line tile)).step given slot .fetchColumn := by
  unfold Line.tileSteps
  by_cases htile : tile.val = 8
  · simp only [htile, and_self, if_true]
    rfl
  · simp only [htile, and_false, if_false, if_true]
    rfl

/-- The events of a line that renders. -/
theorem events_eq (line : Line) :
    line.events true = ⟨0, .clearSecondaryOam⟩ :: line.tileEvents true ++ line.closingEvents := rfl

theorem run_cons (brush : Brush) (event : Event) (events : List Event) :
    brush.run given slot (event :: events) =
      (brush.step given slot event.step).run given slot events := rfl

theorem run_append (brush : Brush) (events events' : List Event) :
    brush.run given slot (events ++ events') =
      (brush.run given slot events).run given slot events' :=
  List.foldl_append

/-- The tile columns of a line of the picture. -/
theorem run_tileEvents (h : brush.At given slot row column) (hr : row < 480)
    (hshown : given.mask.showBackground = true) (line : Fin 240) :
    (brush.run given slot ((Line.visible line).tileEvents true)).At given slot row (column + 32) ∧
      ∀ x y, (brush.run given slot ((Line.visible line).tileEvents true)).frame.word x y =
        if y = line then rowWord given slot row column x else brush.frame.word x y := by
  have hrun : brush.run given slot ((Line.visible line).tileEvents true) =
      (List.finRange 32).foldl (fun brush tile => brush.run given slot
        (((Line.visible line).tileSteps true tile).map fun step => ⟨8 * tile, step⟩)) brush :=
    List.foldl_flatMap
  have hfold := foldl_finRange_induction (n := 32) (a := brush)
    (f := fun brush tile => brush.run given slot
      (((Line.visible line).tileSteps true tile).map fun step => ⟨8 * tile, step⟩))
    (P := fun n b => b.At given slot row (column + n) ∧ ∀ x y, b.frame.word x y =
      if y = line ∧ x.val / 8 < n then rowWord given slot row column x else brush.frame.word x y)
    (fun j b hb => ?_) ⟨h, fun x y => ?_⟩
  · rw [hrun]
    refine ⟨hfold.1, fun x y => ?_⟩
    have hx : x.val / 8 < 32 := by omega
    rw [hfold.2]
    simp only [hx, and_true]
  · obtain ⟨hat, hword⟩ := hb
    rw [run_tileSteps]
    -- the unit draws from the tiles that it holds and only then fetches the next
    refine ⟨⟨?_, ?_, ?_⟩, fun x y => ?_⟩
    · exact hat.fetch.v
    · exact hat.fetch.left
    · exact hat.fetch.right
    · show (b.step given slot (.drawTile line j)).frame.word x y = _
      rw [hat.word_draw hr hshown, hword]
      by_cases hline : y = line
      · obtain hlt | heq | hgt := Nat.lt_trichotomy (x.val / 8) j
        · rw [if_neg (by omega), if_pos ⟨hline, hlt⟩, if_pos ⟨hline, by omega⟩]
        · rw [if_pos ⟨hline, heq⟩, if_pos ⟨hline, by omega⟩]
        · rw [if_neg (by omega), if_neg (by omega), if_neg (by omega)]
      · simp only [hline, false_and, if_false]
  · rw [if_neg fun hlt => Nat.not_lt_zero _ hlt.2]

/-- Fetching sprites does not move the brush. -/
theorem run_nextRow_fetchSprites (brush : Brush) (slots : List (Fin 8)) :
    brush.run given slot (⟨256, .nextRow⟩ ::
        slots.map fun n : Fin 8 => ⟨256 + 8 * n, .fetchSprite n⟩) =
      brush.step given slot .nextRow := by
  have hslots (b : Brush) :
      b.run given slot (slots.map fun n : Fin 8 => ⟨256 + 8 * n, .fetchSprite n⟩) = b := by
    induction slots with
    | nil => rfl
    | cons n slots ih => exact ih
  exact hslots (brush.step given slot .nextRow)

/-- A line of the picture draws its row and leads to the head of the next. -/
theorem run_visible (h : brush.At given slot row given.t.column) (hr : row < 480)
    (hshown : given.mask.showBackground = true) (line : Fin 240) :
    (brush.run given slot ((Line.visible line).events true)).At given slot ((row + 1) % 480)
        given.t.column ∧
      ∀ x y, (brush.run given slot ((Line.visible line).events true)).frame.word x y =
        if y = line then rowWord given slot row given.t.column x else brush.frame.word x y := by
  obtain ⟨hat, hword⟩ := run_tileEvents h hr hshown line
  generalize htiles : brush.run given slot ((Line.visible line).tileEvents true) = drawn
    at hat hword
  have hrun : brush.run given slot ((Line.visible line).events true) =
      ((drawn.step given slot .nextRow).step given slot .fetchColumn).step given slot
        .fetchColumn := by
    have hclear : brush.run given slot
        (⟨0, .clearSecondaryOam⟩ :: (Line.visible line).tileEvents true) = drawn :=
      (run_cons _ _ _).trans htiles
    rw [events_eq, run_append, hclear, Line.closingEvents, run_append, run_append,
      run_nextRow_fetchSprites]
    rfl
  have hv : (drawn.step given slot .nextRow).v = .place ((row + 1) % 480) given.t.column := by
    show drawn.v.nextRow.withColumnOf given.t = _
    rw [hat.v, VramAddress.nextRow_place hr, VramAddress.withColumnOf_place]
  rw [hrun]
  exact ⟨at_of_two_fetches hv given.t.column_lt, hword⟩

/-- The line before the picture leads to the head of the first row, wherever the brush was. -/
theorem run_preRender (brush : Brush) (ht : given.t.coarseY.toNat ≤ 29) :
    (brush.run given slot (Line.preRender.events true)).At given slot given.t.row
      given.t.column := by
  have hreload (b : Brush) :
      (((b.step given slot .nextRow).step given slot .reloadRow).step given slot .reloadRow).v =
        .place given.t.row given.t.column := VramAddress.place_of_reload ht
  rw [events_eq, run_append, Line.closingEvents, run_append, run_append, run_nextRow_fetchSprites]
  exact at_of_two_fetches (hreload _) given.t.column_lt

end Brush

end Famicom
