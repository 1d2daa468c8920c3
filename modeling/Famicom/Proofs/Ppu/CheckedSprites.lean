import Famicom.Proofs.Ppu.Checked

/-!
# Checked operations: sprites

The search for sprites, as the loop over sprite memory that the unit runs, and the fetch of one
sprite, with all sums, differences and indices checked. The loop finds what `Ppu.searchSprites`
says: the first eight sprites in range, and the end of the walk for a ninth.

* `Checked.scan_full`, `Checked.scan_eq`: the loop behind the eighth sprite, and before it.
* `Checked.searchSprites_eq`, `Checked.fetchSprite_eq`: the checks pass.
-/

namespace Famicom

namespace Sprite

/-- The sprites in range from sprite `n` on. -/
def candidatesFrom (oam : Memory 256) (height : Nat) (line : UInt16) (n : Nat) : List Nat :=
  (List.range' n (64 - n)).filter fun n => inRange height line (oam.load (4 * n))

theorem candidatesFrom_of_lt (oam : Memory 256) (height : Nat) (line : UInt16) {n : Nat}
    (h : n < 64) :
    candidatesFrom oam height line n =
      if inRange height line (oam.load (4 * n)) then n :: candidatesFrom oam height line (n + 1)
      else candidatesFrom oam height line (n + 1) := by
  have hlength : 64 - n = 64 - (n + 1) + 1 := by omega
  rw [candidatesFrom, hlength, List.range'_succ, List.filter_cons]
  rfl

theorem head?_candidatesFrom_succ (oam : Memory 256) (height : Nat) (line : UInt16) (n : Nat) :
    ((candidatesFrom oam height line (n + 1)).head? == some 0) = false := by
  have hnot : 0 ∉ candidatesFrom oam height line (n + 1) := by
    intro h
    have hmem := (List.mem_range'_1.mp (List.mem_filter.mp h).1).1
    omega
  rw [beq_eq_false_iff_ne]
  exact fun h => hnot (List.mem_of_mem_head? h)

end Sprite

namespace Checked

variable {C : Type} [Cartridge C]

/-! ## The search -/

/-- What a search has found so far. -/
structure Scan where
  count : Nat
  first : Bool
  overflow : Bool
  secondary : Memory 32

/-- `Sprite.inRange`. -/
def inRange (height : Nat) (line : UInt16) (y : UInt8) : Option Bool := do
  let bottom ← word (y.toNat + height)
  some (y.toNat ≤ line.toNat && line.toNat < bottom.toNat)

/-- `Sprite.copyTo`. -/
def copyTo (oam : Memory 256) (secondary : Memory 32) (slot n : Nat) : Option (Memory 32) :=
  let copy (secondary : Memory 32) (k : Fin 4) : Option (Memory 32) := do
    let value ← load oam (← size (4 * n + k))
    store secondary (← size (4 * slot + k)) value
  (List.finRange 4).foldlM copy secondary

/-- Take a sprite if it is in range. -/
def take (oam : Memory 256) (height : Nat) (line : UInt16) (n : Nat) (found : Scan) :
    Option Scan := do
  let hit ← inRange height line (← load oam (← size (4 * n)))
  if hit then
    let secondary ← copyTo oam found.secondary found.count n
    let count ← size (found.count + 1)
    some { found with count, first := found.first || n == 0, secondary }
  else some found

/-- The loop of a search from sprite `n`. Once eight have been found, it compares byte `m` of each
sprite. -/
def scan (oam : Memory 256) (height : Nat) (line : UInt16) (n m : Nat) (found : Scan) :
    Option (Scan × UInt8) :=
  if _ : n < 64 then
    if found.count < 8 then do
      scan oam height line (n + 1) m (← take oam height line n found)
    else do
      let place ← size (4 * n + m)
      let hit ← inRange height line (← load oam place)
      if hit then some ({ found with overflow := true }, UInt8.ofNat place)
      else scan oam height line (n + 1) ((m + 1) % 4) found
  else do
    let place ← size (4 * n + m)
    some (found, UInt8.ofNat place)
termination_by 64 - n

/-- `Ppu.searchSprites`. -/
def searchSprites (ppu : Ppu) (line : UInt16) : Option Ppu := do
  let start : Scan := ⟨0, false, false, ppu.secondaryOam⟩
  let (found, stoppedAt) ← scan ppu.oam ppu.control.spriteHeight line 0 0 start
  if _ : found.count < 9 then
    some { ppu with
      secondaryOam := found.secondary
      status.overflow := ppu.status.overflow || found.overflow
      search := ⟨⟨found.count, by omega⟩, found.first, line, stoppedAt⟩ }
  else none

theorem inRange_eq {height : Nat} (line : UInt16) (y : UInt8) (h : height ≤ 16) :
    inRange height line y = some (Sprite.inRange height line y) := by
  have hy := y.toNat_lt
  have hbottom : (UInt16.ofNat (y.toNat + height)).toNat = y.toNat + height := by
    rw [UInt16.toNat_ofNat']
    exact Nat.mod_eq_of_lt (by omega)
  simp only [inRange, word_eq hbottom, Option.bind_eq_bind, Option.bind_some, hbottom]
  rfl

theorem copyTo_eq (oam : Memory 256) (secondary : Memory 32) {slot n : Nat} (hslot : slot < 8)
    (hn : n < 64) :
    copyTo oam secondary slot n = some (Sprite.copyTo oam secondary slot n) := by
  rw [copyTo, Sprite.copyTo, Fin.foldl_eq_finRange_foldl]
  refine foldlM_eq _ _ fun secondary k _ => ?_
  have hsource : 4 * n + k.val < 256 := by omega
  have htarget : 4 * slot + k.val < 32 := by omega
  simp only [size_eq (Nat.lt_trans hsource (by decide)), load_eq oam hsource,
    size_eq (Nat.lt_trans htarget (by decide)), store_eq _ _ htarget, Option.bind_eq_bind,
    Option.bind_some]

section

variable (oam : Memory 256) {height : Nat} (line : UInt16) (hheight : height ≤ 16)

include hheight

theorem take_eq {n : Nat} (found : Scan) (hn : n < 64) (hcount : found.count < 8) :
    take oam height line n found =
      some (if Sprite.inRange height line (oam.load (4 * n)) then { found with
          count := found.count + 1
          first := found.first || n == 0
          secondary := Sprite.copyTo oam found.secondary found.count n }
        else found) := by
  have hentry : 4 * n < 256 := by omega
  simp only [take, size_eq (Nat.lt_trans hentry (by decide)), load_eq oam hentry,
    inRange_eq line _ hheight, copyTo_eq oam _ hcount hn, size_eq (n := found.count + 1) (by omega),
    Option.bind_eq_bind, Option.bind_some, ← apply_ite some]

/-- Behind the eighth sprite the loop walks to a ninth. -/
theorem scan_full {n m : Nat} (found : Scan) (hn : n ≤ 64) (hm : m < 4) (hcount : 8 ≤ found.count) :
    scan oam height line n m found =
      some ({ found with
        overflow := found.overflow || (Sprite.overflowWalk oam height line n m).1 },
        (Sprite.overflowWalk oam height line n m).2) := by
  have hplace : size (4 * n + m) = some (4 * n + m) := size_eq (by omega)
  fun_induction Sprite.overflowWalk oam height line n m with
  | case1 n m hlt hit =>
    rw [scan, dif_pos hlt, if_neg (by omega)]
    simp only [hplace, load_eq (i := 4 * n + m) oam (by omega), inRange_eq line _ hheight, hit,
      Option.bind_eq_bind, Option.bind_some, if_true, Bool.or_true]
  | case2 n m hlt hit ih =>
    have hnext := ih (by omega) (Nat.mod_lt _ (by decide)) (size_eq (by omega))
    rw [scan, dif_pos hlt, if_neg (by omega)]
    simp only [hplace, load_eq (i := 4 * n + m) oam (by omega), inRange_eq line _ hheight, hit,
      Option.bind_eq_bind, Option.bind_some, hnext]
    rfl
  | case3 n m hge =>
    rw [scan, dif_neg hge, hplace, Bool.or_false]
    rfl

/-- Where the loop ends if it has found less than eight sprites before sprite `n`. -/
def scanned (oam : Memory 256) (height : Nat) (line : UInt16) (n : Nat) (found : Scan) :
    Scan × UInt8 :=
  let rest := Sprite.candidatesFrom oam height line n
  let chosen := rest.take (8 - found.count)
  let walk := (rest[7 - found.count]?).elim (false, 0) fun eighth =>
    Sprite.overflowWalk oam height line (eighth + 1) 0
  ({ count := found.count + chosen.length
     first := found.first || rest.head? == some 0
     overflow := found.overflow || walk.1
     secondary := Sprite.copyAll oam found.secondary found.count chosen }, walk.2)

theorem scan_eq {n : Nat} (found : Scan) (hn : n ≤ 64) (hcount : found.count < 8) :
    scan oam height line n 0 found = some (scanned oam height line n found) := by
  induction hk : 64 - n generalizing n found with
  | zero =>
    obtain rfl : n = 64 := by omega
    rw [scan, dif_neg (by decide), size_eq (by decide)]
    simp [scanned, Sprite.candidatesFrom, Sprite.copyAll]
  | succ k ih =>
    have hlt : n < 64 := by omega
    have hcandidates := Sprite.candidatesFrom_of_lt oam height line hlt
    rw [scan, dif_pos hlt, if_pos hcount, take_eq oam line hheight found hlt hcount,
      Option.bind_eq_bind, Option.bind_some]
    by_cases hit : Sprite.inRange height line (oam.load (4 * n)) = true
    · rw [if_pos hit] at hcandidates ⊢
      have hother := Sprite.head?_candidatesFrom_succ oam height line n
      by_cases heighth : found.count + 1 < 8
      · rw [ih _ (by omega) heighth (by omega)]
        have hchosen : 8 - found.count = 8 - (found.count + 1) + 1 := by omega
        have hwalk : 7 - found.count = 7 - (found.count + 1) + 1 := by omega
        simp only [scanned, hcandidates, hchosen, hwalk, List.take_succ_cons, List.length_cons,
          List.getElem?_cons_succ, List.head?_cons, Sprite.copyAll, hother]
        simp [Nat.add_assoc, Nat.add_comm 1]
      · rw [scan_full oam line hheight _ (by omega) (by decide)
          (show 8 ≤ found.count + 1 by omega)]
        have hlast : found.count = 7 := by omega
        simp [scanned, hcandidates, hlast, Sprite.copyAll]
    · rw [if_neg hit] at hcandidates ⊢
      rw [ih found (by omega) hcount (by omega), scanned, scanned, hcandidates]

end

theorem searchSprites_eq (ppu : Ppu) (line : UInt16) :
    searchSprites ppu line = some (ppu.searchSprites line) := by
  have hall : Sprite.candidatesFrom ppu.oam ppu.control.spriteHeight line 0 =
      Sprite.candidates ppu.oam ppu.control.spriteHeight line := by
    rw [Sprite.candidatesFrom, Sprite.candidates, List.range_eq_range']
  have hcount : ((Sprite.candidates ppu.oam ppu.control.spriteHeight line).take 8).length ≤ 8 :=
    List.length_take_le 8 _
  simp only [searchSprites, scan_eq ppu.oam line ppu.control.spriteHeight_le
    ⟨0, false, false, ppu.secondaryOam⟩ (Nat.zero_le 64) (by simp), scanned, hall, Nat.zero_add,
    Nat.sub_zero, Option.bind_eq_bind, Option.bind_some]
  rw [dif_pos (by omega)]
  unfold Ppu.searchSprites
  dsimp only
  cases (Sprite.candidates ppu.oam ppu.control.spriteHeight line)[7]? <;> simp

/-! ## The fetch -/

/-- `Sprite.planeAddress`. -/
def planeAddress (control : Control) (tile : UInt8) (row : UInt16) : Option UInt16 :=
  if control.tallSprites then do
    let half : UInt16 := if 8 ≤ row then 1 else 0
    let half ← word (2 * (tile.toNat / 2) + half.toNat)
    word (0x1000 * (tile.toNat % 2) + 16 * half.toNat + row.toNat % 8)
  else word (control.spriteTable.toNat + 16 * tile.toNat + row.toNat)

/-- The row of a sprite's tiles, given the distance of a line from its top. -/
def tileRow (height : Nat) (flags : UInt8) (row : UInt16) : Option UInt16 :=
  if Byte.bit flags 7 then do word (← sub (← sub height 1) row.toNat) else some row

/-- Change a column of a sprite line, if there is such a column. -/
def setDot (dots : SpriteLine) (x : Nat) (dot : SpriteDot) : Option SpriteLine :=
  if _ : x < 256 then some (dots.set x (some dot)) else none

/-- Draw a pixel of a sprite, unless it lies beyond the line. -/
def drawDot (plane0 plane1 flags x : UInt8) (first : Bool) (dots : SpriteLine) (i : Fin 8) :
    Option SpriteLine := do
  let column ← size (x.toNat + i)
  if 256 ≤ column then some dots
  else
    let mirrored ← sub 7 i
    let pixel ← tilePixel plane0 plane1 (if Byte.bit flags 6 then i else mirrored) (flags % 4)
    let old ← dots[column]?
    if pixel != 0 && old.isNone then setDot dots column ⟨0x10 + pixel, Byte.bit flags 5, first⟩
    else some dots

/-- `Ppu.drawSprite`. -/
def drawSprite (ppu : Ppu) (cartridge : C) (slot : Nat) (row : UInt16) : Option (Ppu × C) := do
  let tile ← load ppu.secondaryOam (← size (4 * slot + 1))
  let flags ← load ppu.secondaryOam (← size (4 * slot + 2))
  let x ← load ppu.secondaryOam (← size (4 * slot + 3))
  let plane ← planeAddress ppu.control tile (← tileRow ppu.control.spriteHeight flags row)
  let (plane0, cartridge) ← readVram ppu cartridge plane
  let (plane1, cartridge) ← readVram ppu cartridge (← word (plane.toNat + 8))
  let spriteLine ← (List.finRange 8).foldlM
    (drawDot plane0 plane1 flags x (slot == 0 && ppu.search.first)) ppu.spriteLine
  some ({ ppu with spriteLine }, cartridge)

/-- `Ppu.fetchSprite`. -/
def fetchSprite (ppu : Ppu) (cartridge : C) (slot : Nat) : Option (Ppu × C) :=
  let ppu := if slot = 0 then ppu.clearSpriteLine else ppu
  if slot < ppu.search.count then do
    let y ← load ppu.secondaryOam (← size (4 * slot))
    let row := ppu.search.line - y.toUInt16
    if row.toNat < ppu.control.spriteHeight then drawSprite ppu cartridge slot row
    else some (ppu, cartridge)
  else some (ppu, cartridge)

theorem planeAddress_eq {control : Control} (tile : UInt8) {row : UInt16}
    (h : row.toNat < control.spriteHeight) :
    planeAddress control tile row = some (Sprite.planeAddress control tile row) ∧
      word ((Sprite.planeAddress control tile row).toNat + 8) =
        some (Sprite.planeAddress control tile row + 8) := by
  have htile := tile.toNat_lt
  unfold Control.spriteHeight at h
  unfold planeAddress Sprite.planeAddress
  split
  · next htall =>
    have hhalf : (if 8 ≤ row then 1 else 0 : UInt16).toNat ≤ 1 := by split <;> decide
    dsimp only
    generalize (if 8 ≤ row then 1 else 0 : UInt16) = half at hhalf
    have htop : (2 * (tile.toUInt16 / 2) + half).toNat = 2 * (tile.toNat / 2) + half.toNat := by
      simp only [UInt16.toNat_add, UInt16.toNat_mul, UInt16.toNat_div, UInt8.toNat_toUInt16,
        UInt16.reduceToNat]
      omega
    have hplane : (0x1000 * (tile.toUInt16 % 2) + 16 * (2 * (tile.toUInt16 / 2) + half) +
        row % 8).toNat = 0x1000 * (tile.toNat % 2) + 16 * (2 * (tile.toUInt16 / 2) + half).toNat +
          row.toNat % 8 := by
      rw [UInt16.toNat_add, UInt16.toNat_add, UInt16.toNat_mul, UInt16.toNat_mul, htop]
      simp only [UInt16.toNat_mod, UInt8.toNat_toUInt16, UInt16.reduceToNat]
      omega
    rw [word_eq htop, Option.bind_eq_bind, Option.bind_some]
    refine ⟨word_eq hplane, word_eq ?_⟩
    rw [UInt16.toNat_add, hplane, htop]
    simp only [UInt16.reduceToNat]
    omega
  · next htall =>
    rw [if_neg htall] at h
    exact word_plane_eq tile control.spriteTable_le h

theorem tileRow_eq {height : Nat} (flags : UInt8) {row : UInt16} (hheight : height ≤ 16)
    (h : row.toNat < height) :
    let row' := if Byte.bit flags 7 then UInt16.ofNat height - 1 - row else row
    tileRow height flags row = some row' ∧ row'.toNat < height := by
  have hsize : (UInt16.ofNat height).toNat = height := by
    rw [UInt16.toNat_ofNat']
    exact Nat.mod_eq_of_lt (by omega)
  have hone : 1 ≤ UInt16.ofNat height := by
    rw [UInt16.le_iff_toNat_le, hsize]
    exact Nat.lt_of_le_of_lt (Nat.zero_le _) h
  have hlast : (UInt16.ofNat height - 1).toNat = height - 1 := by
    rw [UInt16.toNat_sub_of_le _ _ hone, hsize]
    rfl
  have hrow : (UInt16.ofNat height - 1 - row).toNat = height - 1 - row.toNat := by
    rw [UInt16.toNat_sub_of_le _ _ (by rw [UInt16.le_iff_toNat_le]; omega), hlast]
  unfold tileRow
  dsimp only
  split
  · simp only [sub_eq (show 1 ≤ height by omega), sub_eq (show row.toNat ≤ height - 1 by omega),
      word_eq hrow, Option.bind_eq_bind, Option.bind_some, true_and]
    omega
  · exact ⟨rfl, h⟩

theorem drawDot_eq (plane0 plane1 flags x : UInt8) (first : Bool) (dots : SpriteLine)
    (i : Fin 8) :
    drawDot plane0 plane1 flags x first dots i = some (dots.draw (x.toNat + i)
      (Famicom.tilePixel plane0 plane1 (if Byte.bit flags 6 then i.val else 7 - i.val) (flags % 4))
      (Byte.bit flags 5) first) := by
  have hx := x.toNat_lt
  have hbit : (if Byte.bit flags 6 then i.val else 7 - i.val) < 8 := by
    split <;> omega
  simp only [drawDot, size_eq (n := x.toNat + i.val) (by omega),
    sub_eq (Nat.le_of_lt_succ i.isLt), tilePixel_eq _ _ _ hbit, Option.bind_eq_bind,
    Option.bind_some]
  unfold SpriteLine.draw setDot
  by_cases hcolumn : 256 ≤ x.toNat + i.val
  · rw [if_pos hcolumn, dif_neg (by omega)]
  · rw [if_neg hcolumn, dif_pos (by omega), dif_pos (by omega),
      Vector.getElem?_eq_getElem (by omega), Option.bind_some, ← apply_ite some]

theorem drawSprite_eq (ppu : Ppu) (cartridge : C) {slot : Nat} {row : UInt16} (hslot : slot < 8)
    (h : row.toNat < ppu.control.spriteHeight) :
    drawSprite ppu cartridge slot row = some (ppu.drawSprite cartridge slot row) := by
  have hload (k : Nat) (hk : k < 4) : size (4 * slot + k) = some (4 * slot + k) ∧
      load ppu.secondaryOam (4 * slot + k) = some (ppu.secondaryOam.load (4 * slot + k)) :=
    ⟨size_eq (by omega), load_eq _ (by omega)⟩
  have hrow (flags : UInt8) := tileRow_eq flags ppu.control.spriteHeight_le h
  have hplane (tile flags : UInt8) := planeAddress_eq tile (hrow flags).2
  simp only [drawSprite, (hload 1 (by decide)).1, (hload 1 (by decide)).2, (hload 2 (by decide)).1,
    (hload 2 (by decide)).2, (hload 3 (by decide)).1, (hload 3 (by decide)).2, (hrow _).1,
    (hplane _ _).1, (hplane _ _).2, readVram_eq,
    foldlM_eq _ _ fun _ _ _ => drawDot_eq _ _ _ _ _ _ _,
    ← Fin.foldl_eq_finRange_foldl, Option.bind_eq_bind, Option.bind_some]
  rfl

theorem fetchSprite_eq (ppu : Ppu) (cartridge : C) (slot : Nat) :
    fetchSprite ppu cartridge slot = some (ppu.fetchSprite cartridge slot) := by
  unfold fetchSprite Ppu.fetchSprite
  dsimp only
  generalize (if slot = 0 then ppu.clearSpriteLine else ppu) = ppu
  split
  · next hcount =>
    have hslot : slot < 8 := by omega
    have hentry : 4 * slot < 32 := by omega
    simp only [size_eq (Nat.lt_trans hentry (by decide)), load_eq _ hentry, Option.bind_eq_bind,
      Option.bind_some]
    split
    · next hrow => exact drawSprite_eq ppu cartridge hslot hrow
    · rfl
  · rfl

end Checked

end Famicom
