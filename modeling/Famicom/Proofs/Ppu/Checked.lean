import Famicom.Proofs.Ppu.WellFormed

/-!
# Checked operations

The operations of the picture unit once more, with every sum, product, difference, shift and index
checked: a word has 16 bits, a size at least as many, and a memory as many cells as bytes. An
operation whose check fails has no result. No check ever fails, and what the checked operations
give is what the unit does.

* `Checked.word_eq`, `Checked.size_eq`, `Checked.load_eq`: when a check passes, and with which
  result.
* one lemma for each operation, named after it.
* `Ppu.runAll_powerOn`: every sequence of operations passes its checks and ends within the widths
  of the chip.

Only what computes or indexes is written out again. Fields that are taken from an address or put
into it are bits, and the steps that wrap round on purpose (sprite addresses, the step after an
access at `$2007`, the distance of a line from a sprite) wrap here too.
-/

namespace Famicom

namespace Checked

variable {C : Type} [Cartridge C]

/-! ## Numbers and memories -/

/-- The value of sums and products, if a word holds it. No part of them is larger than the
whole. -/
def word (n : Nat) : Option UInt16 := if n < 0x10000 then some (UInt16.ofNat n) else none

/-- The value of sums and products, if a size holds it. -/
def size (n : Nat) : Option Nat := if n < 0x10000 then some n else none

/-- A difference, if it is not negative. -/
def sub (a b : Nat) : Option Nat := if b ≤ a then some (a - b) else none

/-- A byte moved down by fewer places than it has. -/
def shiftRight (byte : UInt8) (places : Nat) : Option UInt8 :=
  if places < 8 then some (byte >>> UInt8.ofNat places) else none

/-- The byte in a cell, if there is such a cell. -/
def load {n : Nat} (memory : Memory n) (i : Nat) : Option UInt8 := memory.cells[i]?

/-- Change the byte in a cell, if there is such a cell. -/
def store {n : Nat} (memory : Memory n) (i : Nat) (value : UInt8) : Option (Memory n) :=
  if _ : i < n then some { memory with cells := memory.cells.set i value } else none

theorem word_eq {n : Nat} {w : UInt16} (h : w.toNat = n) : word n = some w := by
  subst h
  rw [word, if_pos w.toNat_lt, UInt16.ofNat_toNat]

theorem size_eq {n : Nat} (h : n < 0x10000) : size n = some n := if_pos h

theorem sub_eq {a b : Nat} (h : b ≤ a) : sub a b = some (a - b) := if_pos h

theorem shiftRight_eq {byte : UInt8} {places : Nat} (h : places < 8) :
    shiftRight byte places = some (byte >>> UInt8.ofNat places) :=
  if_pos h

theorem load_eq {n i : Nat} (memory : Memory n) (h : i < n) :
    load memory i = some (memory.load i) := by
  simp only [load, Memory.load, Nat.mod_eq_of_lt h]
  exact Vector.getElem?_eq_getElem h

theorem store_eq {n i : Nat} (memory : Memory n) (value : UInt8) (h : i < n) :
    store memory i value = some (memory.store i value) := by
  simp only [store, dif_pos h, Memory.store, Nat.mod_eq_of_lt h]

/-- A loop whose steps pass their checks. -/
theorem foldlM_eq {α β : Type} {step : β → α → Option β} {pure : β → α → β} (list : List α)
    (start : β) (h : ∀ b, ∀ a ∈ list, step b a = some (pure b a)) :
    list.foldlM step start = some (list.foldl pure start) := by
  induction list generalizing start with
  | nil => rfl
  | cons a list ih =>
    rw [List.foldlM_cons, h start a List.mem_cons_self, List.foldl_cons]
    exact ih (pure start a) fun b a ha => h b a (List.mem_cons_of_mem _ ha)

/-! ## Memory -/

/-- `Ppu.ciramIndex`. -/
def ciramIndex (cartridge : C) (address : UInt16) : Option Nat :=
  size ((Cartridge.ciramA10 cartridge address).toNat * 0x400 + (address % 0x400).toNat)

/-- `Ppu.paletteIndex`. -/
def paletteIndex (address : Nat) : Option Nat :=
  let i := address % 32
  if 16 ≤ i ∧ i % 4 = 0 then sub i 16 else some i

/-- `Ppu.paletteColor`. -/
def paletteColor (ppu : Ppu) (index : UInt8) : Option UInt8 := do
  let color := (← load ppu.palette (← paletteIndex index.toNat)) % 0x40
  some (if ppu.mask.grayscale then color &&& 0x30 else color)

/-- `Ppu.readVram`. -/
def readVram (ppu : Ppu) (cartridge : C) (address : UInt16) : Option (UInt8 × C) :=
  let address := address % 0x4000
  if address < 0x2000 then some (Cartridge.ppuRead cartridge address)
  else if address < 0x3F00 then
    let address := Ppu.nametableAddress address
    if Cartridge.ciramEnabled cartridge address then do
      let value ← load ppu.ciram (← ciramIndex cartridge address)
      some (value, cartridge)
    else some (Cartridge.ppuRead cartridge address)
  else do
    let color ← paletteColor ppu address.toUInt8
    some (color, cartridge)

/-- `Ppu.writeVram`. -/
def writeVram (ppu : Ppu) (cartridge : C) (address : UInt16) (value : UInt8) : Option (Ppu × C) :=
  let address := address % 0x4000
  if address < 0x2000 then some (ppu, Cartridge.ppuWrite cartridge address value)
  else if address < 0x3F00 then
    let address := Ppu.nametableAddress address
    if Cartridge.ciramEnabled cartridge address then do
      let ciram ← store ppu.ciram (← ciramIndex cartridge address) value
      some ({ ppu with ciram }, cartridge)
    else some (ppu, Cartridge.ppuWrite cartridge address value)
  else do
    let palette ← store ppu.palette (← paletteIndex address.toNat) (value % 0x40)
    some ({ ppu with palette }, cartridge)

theorem ciramIndex_eq (cartridge : C) (address : UInt16) :
    ciramIndex cartridge address = some (Ppu.ciramIndex cartridge address) ∧
      Ppu.ciramIndex cartridge address < 0x800 := by
  have hlow : (address % 0x400).toNat < 0x400 := by
    rw [UInt16.toNat_mod]
    exact Nat.mod_lt _ (by decide)
  unfold ciramIndex Ppu.ciramIndex
  cases Cartridge.ciramA10 cartridge address
  · simp only [Bool.toNat_false, Nat.zero_mul, Bool.false_eq_true, if_false]
    exact ⟨size_eq (by omega), by omega⟩
  · simp only [Bool.toNat_true, Nat.one_mul, if_true]
    exact ⟨size_eq (by omega), by omega⟩

theorem paletteIndex_eq (address : Nat) :
    paletteIndex address = some (Ppu.paletteIndex address) := by
  unfold paletteIndex Ppu.paletteIndex
  dsimp only
  split
  · next h => exact sub_eq h.1
  · rfl

theorem paletteColor_eq (ppu : Ppu) (index : UInt8) :
    paletteColor ppu index = some (ppu.paletteColor index) := by
  have hload := load_eq ppu.palette (paletteIndex_spec index.toNat).1
  simp only [paletteColor, paletteIndex_eq, Option.bind_eq_bind, Option.bind_some, hload]
  rfl

theorem readVram_eq (ppu : Ppu) (cartridge : C) (address : UInt16) :
    readVram ppu cartridge address = some (ppu.readVram cartridge address) := by
  have hciram (address : UInt16) := ciramIndex_eq cartridge address
  simp only [readVram, Ppu.readVram, (hciram _).1, paletteColor_eq, Option.bind_eq_bind,
    Option.bind_some, load_eq ppu.ciram (hciram _).2]
  grind

theorem writeVram_eq (ppu : Ppu) (cartridge : C) (address : UInt16) (value : UInt8) :
    writeVram ppu cartridge address value = some (ppu.writeVram cartridge address value) := by
  have hciram (address : UInt16) := ciramIndex_eq cartridge address
  have hpalette (address : Nat) := (paletteIndex_spec address).1
  simp only [writeVram, Ppu.writeVram, (hciram _).1, paletteIndex_eq, Option.bind_eq_bind,
    Option.bind_some, store_eq ppu.ciram _ (hciram _).2, store_eq ppu.palette _ (hpalette _)]
  grind

/-! ## Registers -/

/-- `Ppu.writeOam`. -/
def writeOam (ppu : Ppu) (value : UInt8) : Option Ppu := do
  let oam ← store ppu.oam ppu.oamAddress.toNat value
  some { ppu with oam, oamAddress := ppu.oamAddress + 1 }

/-- `Ppu.readData`. -/
def readData (ppu : Ppu) (cartridge : C) : Option (UInt8 × Ppu × C) :=
  let address := ppu.v % 0x4000
  if 0x3F00 ≤ address then do
    let (color, cartridge) ← readVram ppu cartridge address
    let (under, cartridge) ← readVram ppu cartridge (Ppu.nametableAddress address)
    some (0x40 * (ppu.ioLatch / 0x40) + color, { ppu with readBuffer := under }.stepAddress,
      cartridge)
  else do
    let (next, cartridge) ← readVram ppu cartridge address
    some (ppu.readBuffer, { ppu with readBuffer := next }.stepAddress, cartridge)

/-- `Ppu.readRegister`. Two registers read memories. -/
def readRegister (ppu : Ppu) (cartridge : C) (address : UInt16) : Option (UInt8 × Ppu × C) :=
  let number := address % 8
  if number = 4 then do
    let value ← load ppu.oam ppu.oamAddress.toNat
    some (value, { ppu with ioLatch := value }, cartridge)
  else if number = 7 then do
    let (value, ppu, cartridge) ← readData ppu cartridge
    some (value, { ppu with ioLatch := value }, cartridge)
  else some (ppu.readRegister cartridge address)

/-- `Ppu.writeRegister`. Two registers write memories; the others keep bits of the value. -/
def writeRegister (ppu : Ppu) (cartridge : C) (address : UInt16) (value : UInt8) :
    Option (Ppu × C) :=
  let number := address % 8
  if number = 4 then do
    let ppu ← writeOam { ppu with ioLatch := value } value
    some (ppu, cartridge)
  else if number = 7 then do
    let (ppu, cartridge) ← writeVram { ppu with ioLatch := value } cartridge ppu.v value
    some (ppu.stepAddress, cartridge)
  else some (ppu.writeRegister cartridge address value)

theorem writeOam_eq (ppu : Ppu) (value : UInt8) :
    writeOam ppu value = some (ppu.writeOam value) := by
  simp only [writeOam, Option.bind_eq_bind, store_eq ppu.oam value ppu.oamAddress.toNat_lt,
    Option.bind_some]
  rfl

theorem readData_eq (ppu : Ppu) (cartridge : C) :
    readData ppu cartridge = some (ppu.readData cartridge) := by
  simp only [readData, Ppu.readData, readVram_eq, Option.bind_eq_bind, Option.bind_some]
  split
  · rfl
  · rfl

theorem readRegister_eq (ppu : Ppu) (cartridge : C) (address : UInt16) :
    readRegister ppu cartridge address = some (ppu.readRegister cartridge address) := by
  simp only [readRegister, readData_eq, Option.bind_eq_bind, Option.bind_some,
    load_eq ppu.oam ppu.oamAddress.toNat_lt]
  split
  · next h =>
    simp only [Ppu.readRegister, h]
    rfl
  split
  · next h =>
    simp only [Ppu.readRegister, h]
    rfl
  · rfl

theorem writeRegister_eq (ppu : Ppu) (cartridge : C) (address : UInt16) (value : UInt8) :
    writeRegister ppu cartridge address value =
      some (ppu.writeRegister cartridge address value) := by
  simp only [writeRegister, writeOam_eq, writeVram_eq, Option.bind_eq_bind, Option.bind_some]
  split
  · next h =>
    simp only [Ppu.writeRegister, h]
    rfl
  split
  · next h =>
    simp only [Ppu.writeRegister, h]
    rfl
  · rfl

/-! ## Steps -/

/-- `VramAddress.nextColumn`. -/
def nextColumn (v : VramAddress) : Option VramAddress :=
  if v.coarseX = 31 then
    some (.ofFields v.fineY v.nametableY (1 - v.nametableX) v.coarseY 0)
  else word (v.toNat + 1)

/-- `VramAddress.nextRow`. -/
def nextRow (v : VramAddress) : Option VramAddress :=
  if v.fineY ≠ 7 then word (v.toNat + 0x1000)
  else if v.coarseY = 29 then some (.ofFields 0 (1 - v.nametableY) v.nametableX 0 v.coarseX)
  else if v.coarseY = 31 then some (.ofFields 0 v.nametableY v.nametableX 0 v.coarseX)
  else do
    let row ← word (v.coarseY.toNat + 1)
    some (.ofFields 0 v.nametableY v.nametableX row v.coarseX)

theorem nextColumn_eq {v : VramAddress} (h : v < 0x8000) : nextColumn v = some v.nextColumn := by
  unfold nextColumn VramAddress.nextColumn
  split
  · rfl
  · exact word_eq (VramAddress.toNat_add_of_lt h (by decide))

theorem nextRow_eq {v : VramAddress} (h : v < 0x8000) : nextRow v = some v.nextRow := by
  have hrow : word (v.coarseY.toNat + 1) = some (v.coarseY + 1) := by
    obtain ⟨-, -, -, hcy, -⟩ := v.fields_lt
    refine word_eq ?_
    rw [UInt16.toNat_add]
    simp only [UInt16.reduceToNat]
    omega
  have hline : word (v.toNat + 0x1000) = some (v + 0x1000) :=
    word_eq (VramAddress.toNat_add_of_lt h (by decide))
  simp only [nextRow, VramAddress.nextRow, hrow, hline, Option.bind_eq_bind, Option.bind_some]
  grind

/-! ## Tiles -/

/-- `tilePixel`. -/
def tilePixel (plane0 plane1 : UInt8) (bit : Nat) (palette : UInt8) : Option UInt8 := do
  let color := (← shiftRight plane0 bit) % 2 + 2 * ((← shiftRight plane1 bit) % 2)
  some (if color = 0 then 0 else 4 * palette + color)

/-- One of the sixteen pixels of a window. -/
def windowPixel (window : TileWindow) (i : Nat) : Option UInt8 := (window.left ++ window.right)[i]?

/-- Change one of the sixteen pixels of a window. -/
def setWindowPixel (window : TileWindow) (i : Nat) (pixel : UInt8) : Option TileWindow :=
  if _ : i < 8 then some { window with left := window.left.set i pixel }
  else if _ : i - 8 < 8 then some { window with right := window.right.set (i - 8) pixel }
  else none

/-- Place a pixel of a tile line in the second half of a window. -/
def placePixel (plane0 plane1 palette : UInt8) (window : TileWindow) (i : Fin 8) :
    Option TileWindow := do
  let pixel ← tilePixel plane0 plane1 (← sub 7 i) palette
  setWindowPixel window (← size (8 + i)) pixel

/-- `Ppu.fetchTile`. The second half of the window moves to the first, and is filled pixel by
pixel. -/
def fetchTile (ppu : Ppu) (cartridge : C) : Option (Ppu × C) := do
  let (tile, cartridge) ← readVram ppu cartridge ppu.v.tileAddress
  let (palettes, cartridge) ← readVram ppu cartridge ppu.v.attributeAddress
  let quadrant := 4 * (ppu.v.coarseY / 2 % 2) + 2 * (ppu.v.coarseX / 2 % 2)
  let palette := (← shiftRight palettes quadrant.toNat) % 4
  let plane ← word (ppu.control.backgroundTable.toNat + 16 * tile.toNat + ppu.v.fineY.toNat)
  let (plane0, cartridge) ← readVram ppu cartridge plane
  let (plane1, cartridge) ← readVram ppu cartridge (← word (plane.toNat + 8))
  let background ← (List.finRange 8).foldlM (placePixel plane0 plane1 palette)
    ⟨ppu.background.right, ppu.background.right⟩
  some ({ ppu with background }, cartridge)

theorem tilePixel_eq (plane0 plane1 palette : UInt8) {bit : Nat} (h : bit < 8) :
    tilePixel plane0 plane1 bit palette = some (Famicom.tilePixel plane0 plane1 bit palette) := by
  have hplaces : (UInt8.ofNat bit).toNat % 8 = bit := by
    rw [UInt8.toNat_ofNat']
    omega
  have hflag (b : Bool) : b.toUInt8.toNat = b.toNat := by cases b <;> rfl
  have hbit (plane : UInt8) : (plane >>> UInt8.ofNat bit) % 2 = (Byte.bit plane bit).toUInt8 := by
    apply UInt8.toNat_inj.mp
    rw [hflag, Byte.bit, Nat.toNat_testBit, ← Nat.shiftRight_eq_div_pow, UInt8.toNat_mod,
      UInt8.toNat_shiftRight, hplaces]
    rfl
  simp only [tilePixel, shiftRight_eq h, Option.bind_eq_bind, Option.bind_some, hbit]
  rfl

theorem windowPixel_eq (window : TileWindow) (offset i : Fin 8) :
    windowPixel window (offset.val + i.val) = some (window.pixel offset i) := by
  unfold windowPixel TileWindow.pixel
  split
  · next h => rw [Vector.getElem?_eq_getElem (by omega), Vector.getElem_append_left h]
  · next h =>
    rw [Vector.getElem?_eq_getElem (by omega), Vector.getElem_append_right _ (by omega)]

/-- Where the planes of a row of a tile lie. -/
theorem word_plane_eq {table row : UInt16} (tile : UInt8) (htable : table.toNat ≤ 0x1000)
    (hrow : row.toNat < 8) :
    let plane := table + 16 * tile.toUInt16 + row
    word (table.toNat + 16 * tile.toNat + row.toNat) = some plane ∧
      word (plane.toNat + 8) = some (plane + 8) := by
  have htile := tile.toNat_lt
  have hplane : (table + 16 * tile.toUInt16 + row).toNat =
      table.toNat + 16 * tile.toNat + row.toNat := by
    simp only [UInt16.toNat_add, UInt16.toNat_mul, UInt8.toNat_toUInt16, UInt16.reduceToNat]
    omega
  refine ⟨word_eq hplane, word_eq ?_⟩
  rw [UInt16.toNat_add]
  simp only [UInt16.reduceToNat]
  omega

theorem placePixel_eq (plane0 plane1 palette : UInt8) (window : TileWindow) (i : Fin 8) :
    placePixel plane0 plane1 palette window i = some { window with
      right := window.right.set i (Famicom.tilePixel plane0 plane1 (7 - i) palette) } := by
  have hbit : tilePixel plane0 plane1 (7 - i) palette = _ :=
    tilePixel_eq plane0 plane1 palette (by omega)
  simp only [placePixel, sub_eq (Nat.le_of_lt_succ i.isLt), hbit, Option.bind_eq_bind,
    Option.bind_some, size_eq (n := 8 + i.val) (by omega)]
  rw [setWindowPixel, dif_neg (by omega), dif_pos (by omega)]
  simp only [Nat.add_sub_cancel_left]

/-- Placing eight pixels one by one gives a line. -/
theorem foldl_place (left right : TileLine) (pixel : Fin 8 → UInt8) :
    (List.finRange 8).foldl (fun window i => { window with right := window.right.set i (pixel i) })
      (TileWindow.mk left right) = ⟨left, Vector.ofFn pixel⟩ := by
  let place (window : TileWindow) (i : Fin 8) : TileWindow :=
    { window with right := window.right.set i (pixel i) }
  have hfold := foldl_finRange_induction (f := place) (a := TileWindow.mk left right)
    (P := fun k window => window.left = left ∧
      ∀ i : Fin 8, i.val < k → window.right[i] = pixel i)
    (fun k window h => by
      refine ⟨h.1, fun i hi => ?_⟩
      show (window.right.set k (pixel k))[i.val] = pixel i
      rw [Vector.getElem_set]
      split
      · next heq => rw [Fin.ext heq]
      · next hne => exact h.2 i (by omega))
    ⟨rfl, fun i hi => absurd hi (Nat.not_lt_zero _)⟩
  show (List.finRange 8).foldl place ⟨left, right⟩ = _
  generalize (List.finRange 8).foldl place ⟨left, right⟩ = window at hfold
  obtain ⟨left', right'⟩ := window
  obtain ⟨rfl, hright⟩ := hfold
  congr 1
  refine Vector.ext fun i hi => ?_
  rw [Vector.getElem_ofFn]
  exact hright ⟨i, hi⟩ hi

theorem fetchTile_eq (ppu : Ppu) (cartridge : C) :
    fetchTile ppu cartridge = some (ppu.fetchTile cartridge) := by
  have hquadrant : (4 * (ppu.v.coarseY / 2 % 2) + 2 * (ppu.v.coarseX / 2 % 2)).toNat < 8 := by
    simp only [UInt16.toNat_add, UInt16.toNat_mul, UInt16.toNat_mod, UInt16.reduceToNat]
    omega
  have hplanes (tile : UInt8) :=
    word_plane_eq tile ppu.control.backgroundTable_le ppu.v.fields_lt.1
  simp only [fetchTile, readVram_eq, shiftRight_eq hquadrant, (hplanes _).1, (hplanes _).2,
    Option.bind_eq_bind, Option.bind_some, foldlM_eq _ _ fun _ _ _ => placePixel_eq _ _ _ _ _,
    foldl_place]
  rfl

/-! ## Composition -/

/-- Change a word of a frame. -/
def setPixel (frame : Frame) (x y : Nat) (color emphasis : UInt8) : Option Frame := do
  let i ← size (256 * y + x)
  if _ : x < 256 ∧ y < 240 ∧ i < 61440 then
    some ⟨frame.words.set i (pixelWord color emphasis)⟩
  else none

/-- `Ppu.backgroundAt`. -/
def backgroundAt (ppu : Ppu) (x i : Nat) : Option UInt8 :=
  if ppu.mask.showBackground && (8 ≤ x || ppu.mask.backgroundLeft) then do
    windowPixel ppu.background (← size (ppu.fineX.val + i))
  else some 0

/-- `Ppu.spriteAt`. -/
def spriteAt (ppu : Ppu) (x : Nat) : Option (Option SpriteDot) :=
  if ppu.mask.showSprites && (8 ≤ x || ppu.mask.spritesLeft) then ppu.spriteLine[x]? else some none

/-- Compose a pixel of a tile column and draw it. -/
def drawPixel (ppu : Ppu) (line tile i : Nat) : Option Ppu := do
  let x ← size (8 * tile + i)
  let background ← backgroundAt ppu x i
  let sprite ← spriteAt ppu x
  let hit := sprite.any fun dot => dot.first && x != 255 && background != 0
  let color ← paletteColor ppu (Ppu.paletteEntry background sprite)
  let frame ← setPixel ppu.frame x line color ppu.emphasis
  some { ppu with status.spriteZeroHit := ppu.status.spriteZeroHit || hit, frame }

/-- `Ppu.drawTile`, pixel by pixel. -/
def drawTile (ppu : Ppu) (line tile : Nat) : Option Ppu :=
  (List.finRange 8).foldlM (fun ppu (i : Fin 8) => drawPixel ppu line tile i) ppu

theorem setPixel_eq (frame : Frame) (x : Fin 256) (y : Fin 240) (color emphasis : UInt8) :
    setPixel frame x y color emphasis = some (frame.setPixel x y color emphasis) := by
  have hi : 256 * y.val + x.val < 61440 := (Frame.position x y).isLt
  simp only [setPixel, size_eq (Nat.lt_trans hi (by decide)), Option.bind_eq_bind,
    Option.bind_some]
  rw [dif_pos ⟨x.isLt, y.isLt, hi⟩]
  rfl

theorem backgroundAt_eq (ppu : Ppu) (tile : Fin 32) (i : Fin 8) :
    backgroundAt ppu (tileColumn tile i) i = some (ppu.backgroundAt tile i) := by
  simp only [backgroundAt, size_eq (n := ppu.fineX.val + i.val) (by omega), windowPixel_eq,
    Option.bind_eq_bind, Option.bind_some, ← apply_ite some]
  rfl

theorem spriteAt_eq (ppu : Ppu) (x : Fin 256) : spriteAt ppu x = some (ppu.spriteAt x) := by
  rw [spriteAt, Vector.getElem?_eq_getElem x.isLt, ← apply_ite some]
  rfl

theorem drawPixel_eq (ppu : Ppu) (line : Fin 240) (tile : Fin 32) (i : Fin 8) :
    drawPixel ppu line tile i = some { ppu with
      status.spriteZeroHit := ppu.status.spriteZeroHit || ppu.hitAt tile i
      frame := ppu.frame.setPixel (tileColumn tile i) line (ppu.colorAt tile i) ppu.emphasis } := by
  have hcolumn : size (8 * tile.val + i.val) = some (tileColumn tile i).val := size_eq (by omega)
  have hhit : ((ppu.spriteAt (tileColumn tile i)).any fun dot =>
      dot.first && (tileColumn tile i).val != 255 && ppu.backgroundAt tile i != 0) =
        ppu.hitAt tile i := by
    unfold Ppu.hitAt
    cases ppu.spriteAt (tileColumn tile i) <;> rfl
  simp only [drawPixel, hcolumn, backgroundAt_eq, spriteAt_eq, hhit, paletteColor_eq, setPixel_eq,
    Option.bind_eq_bind, Option.bind_some]
  rfl

/-- Drawing pixel by pixel draws the pixels that the column has when it is begun. -/
theorem foldl_drawPixel (ppu : Ppu) (line : Fin 240) (tile : Fin 32) (list : List (Fin 8)) :
    list.foldl (fun ppu i => { ppu with
      status.spriteZeroHit := ppu.status.spriteZeroHit || ppu.hitAt tile i
      frame := ppu.frame.setPixel (tileColumn tile i) line (ppu.colorAt tile i) ppu.emphasis })
      ppu =
    { ppu with
      status.spriteZeroHit := ppu.status.spriteZeroHit || list.any (ppu.hitAt tile)
      frame := list.foldl (fun frame i =>
        frame.setPixel (tileColumn tile i) line (ppu.colorAt tile i) ppu.emphasis) ppu.frame } := by
  induction list generalizing ppu with
  | nil => simp
  | cons i list ih =>
    rw [List.foldl_cons, ih, List.any_cons, ← Bool.or_assoc]
    rfl

theorem drawTile_eq (ppu : Ppu) (line : Fin 240) (tile : Fin 32) :
    drawTile ppu line tile = some (ppu.drawTile line tile) := by
  rw [drawTile, foldlM_eq _ _ fun ppu i _ => drawPixel_eq ppu line tile i, foldl_drawPixel]
  unfold Ppu.drawTile
  dsimp only
  rw [Fin.foldl_eq_finRange_foldl]
  have hcolor (i : Fin 8) : (Vector.ofFn (ppu.colorAt tile)).get i = ppu.colorAt tile i :=
    Vector.getElem_ofFn i.isLt
  simp only [hcolor]

end Checked

end Famicom
