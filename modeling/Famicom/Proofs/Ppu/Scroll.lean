import Famicom.Ppu.VramAddress

/-!
# Places in the scrolled picture

The four nametables make a picture of 64 by 60 tiles, which repeats in both directions. An address
of the unit is a place in it, a pixel row and a tile column, unless its tile row is one of the two
that hold no tiles.

* `nextColumn_place`, `nextRow_place`: the steps of the unit move along the picture.
* `place_of_reload`: where the next picture begins.
-/

namespace Famicom

namespace VramAddress

/-- The address of a pixel row and a tile column. -/
def place (row column : Nat) : VramAddress :=
  UInt16.ofNat (0x1000 * (row % 8) + 0x800 * (row / 240 % 2) + 0x400 * (column / 32 % 2) +
    32 * (row % 240 / 8) + column % 32)

/-- The pixel row of an address. -/
def row (v : VramAddress) : Nat :=
  240 * v.nametableY.toNat + 8 * v.coarseY.toNat + v.fineY.toNat

/-- The tile column of an address. -/
def column (v : VramAddress) : Nat := 32 * v.nametableX.toNat + v.coarseX.toNat

theorem toNat_place (row column : Nat) :
    (place row column).toNat = 0x1000 * (row % 8) + 0x800 * (row / 240 % 2) +
      0x400 * (column / 32 % 2) + 32 * (row % 240 / 8) + column % 32 := by
  unfold place
  rw [UInt16.toNat_ofNat', Nat.mod_eq_of_lt]
  omega

/-! ## Fields -/

/-- The fields of a packed address, given their widths. -/
theorem fields_of_toNat {v : VramAddress} {fineY nametableY nametableX coarseY coarseX : Nat}
    (hf : fineY < 8) (hy : nametableY < 2) (hx : nametableX < 2) (hcy : coarseY < 32)
    (hcx : coarseX < 32)
    (h : v.toNat =
      0x1000 * fineY + 0x800 * nametableY + 0x400 * nametableX + 32 * coarseY + coarseX) :
    v.fineY.toNat = fineY ∧ v.nametableY.toNat = nametableY ∧ v.nametableX.toNat = nametableX ∧
      v.coarseY.toNat = coarseY ∧ v.coarseX.toNat = coarseX := by
  have h32 : v.toNat / 32 = 128 * fineY + 64 * nametableY + 32 * nametableX + coarseY := by omega
  have h400 : v.toNat / 0x400 = 4 * fineY + 2 * nametableY + nametableX := by omega
  have h800 : v.toNat / 0x800 = 2 * fineY + nametableY := by omega
  have h1000 : v.toNat / 0x1000 = fineY := by omega
  simp only [VramAddress.fineY, VramAddress.nametableY, VramAddress.nametableX,
    VramAddress.coarseY, VramAddress.coarseX, UInt16.toNat_mod, UInt16.toNat_div,
    UInt16.reduceToNat]
  omega

/-- The fields of a place. -/
theorem fields_place (row column : Nat) :
    (place row column).fineY.toNat = row % 8 ∧ (place row column).nametableY.toNat = row / 240 % 2 ∧
      (place row column).nametableX.toNat = column / 32 % 2 ∧
      (place row column).coarseY.toNat = row % 240 / 8 ∧
      (place row column).coarseX.toNat = column % 32 :=
  fields_of_toNat (by omega) (by omega) (by omega) (by omega) (by omega) (toNat_place row column)

theorem toNat_ofFields {fineY nametableY nametableX coarseY coarseX : UInt16}
    (hf : fineY.toNat < 8) (hy : nametableY.toNat < 2) (hx : nametableX.toNat < 2)
    (hcy : coarseY.toNat < 32) (hcx : coarseX.toNat < 32) :
    (ofFields fineY nametableY nametableX coarseY coarseX).toNat =
      0x1000 * fineY.toNat + 0x800 * nametableY.toNat + 0x400 * nametableX.toNat +
        32 * coarseY.toNat + coarseX.toNat := by
  simp only [ofFields, UInt16.toNat_add, UInt16.toNat_mul, UInt16.reduceToNat]
  omega

/-- The fields of an address have their widths. -/
theorem fields_lt (v : VramAddress) :
    v.fineY.toNat < 8 ∧ v.nametableY.toNat < 2 ∧ v.nametableX.toNat < 2 ∧ v.coarseY.toNat < 32 ∧
      v.coarseX.toNat < 32 := by
  simp only [fineY, nametableY, nametableX, coarseY, coarseX, UInt16.toNat_mod, UInt16.toNat_div,
    UInt16.reduceToNat]
  omega

/-! ## Steps -/

/-- An address with the fields of a place is the place. -/
theorem eq_place {v : VramAddress} {row column : Nat}
    (h : v.toNat = 0x1000 * (row % 8) + 0x800 * (row / 240 % 2) + 0x400 * (column / 32 % 2) +
      32 * (row % 240 / 8) + column % 32) : v = place row column :=
  UInt16.toNat_inj.mp (h.trans (toNat_place row column).symm)

/-- The other nametable. -/
theorem toNat_other {n : UInt16} {i : Nat} (h : n.toNat = i % 2) : (1 - n).toNat = 1 - i % 2 := by
  have hle : n ≤ 1 := by
    rw [UInt16.le_iff_toNat_le, h]
    exact Nat.le_of_lt_succ (Nat.mod_lt _ (by decide))
  rw [UInt16.toNat_sub_of_le _ _ hle, h]
  rfl

/-- The next tile column. -/
theorem nextColumn_place (row column : Nat) :
    (place row column).nextColumn = place row ((column + 1) % 64) := by
  obtain ⟨hfy, hny, hnx, hcy, hcx⟩ := fields_place row column
  unfold nextColumn
  split
  · next hlast =>
    have hend : column % 32 = 31 := by
      rw [← hcx, hlast]
      rfl
    have htable : (column + 1) % 64 / 32 % 2 = 1 - column / 32 % 2 := by omega
    have hfirst : (column + 1) % 64 % 32 = 0 := by omega
    have hother := toNat_other hnx
    apply eq_place
    rw [toNat_ofFields (by omega) (by omega) (by omega) (by omega) (by decide), hfy, hny, hother,
      hcy,
      htable, hfirst]
    rfl
  · next hlast =>
    have hend : column % 32 ≠ 31 := fun h => hlast (UInt16.toNat_inj.mp (hcx.trans h))
    have htable : (column + 1) % 64 / 32 % 2 = column / 32 % 2 := by omega
    have hnext : (column + 1) % 64 % 32 = column % 32 + 1 := by omega
    apply eq_place
    rw [UInt16.toNat_add, toNat_place, htable, hnext, show UInt16.toNat 1 = 1 from rfl,
      Nat.mod_eq_of_lt]
    · omega
    · omega

/-- The next pixel row. -/
theorem nextRow_place {row column : Nat} (hr : row < 480) :
    (place row column).nextRow = place ((row + 1) % 480) column := by
  obtain ⟨hfy, hny, hnx, hcy, hcx⟩ := fields_place row column
  unfold nextRow
  split
  · next hfine =>
    have hline : row % 8 ≠ 7 := fun h => hfine (UInt16.toNat_inj.mp (hfy.trans h))
    have htable : (row + 1) % 480 / 240 % 2 = row / 240 % 2 := by omega
    have htile : (row + 1) % 480 % 240 / 8 = row % 240 / 8 := by omega
    have hnext : (row + 1) % 480 % 8 = row % 8 + 1 := by omega
    apply eq_place
    rw [UInt16.toNat_add, toNat_place, htable, htile, hnext,
      show UInt16.toNat 0x1000 = 0x1000 from rfl,
      Nat.mod_eq_of_lt]
    · omega
    · omega
  · next hfine =>
    have hline : row % 8 = 7 := by
      rw [← hfy, Classical.not_not.mp hfine]
      rfl
    have hnext : (row + 1) % 480 % 8 = 0 := by omega
    split
    · next hlast =>
      have hend : row % 240 / 8 = 29 := by
        rw [← hcy, hlast]
        rfl
      have htable : (row + 1) % 480 / 240 % 2 = 1 - row / 240 % 2 := by omega
      have htile : (row + 1) % 480 % 240 / 8 = 0 := by omega
      have hother := toNat_other hny
      apply eq_place
      rw [toNat_ofFields (by decide) (by omega) (by omega) (by decide) (by omega), hother, hnx, hcx,
        htable, htile, hnext]
      rfl
    · next hlast =>
      have hend : row % 240 / 8 ≠ 29 := fun h => hlast (UInt16.toNat_inj.mp (hcy.trans h))
      have hnot : ¬ (place row column).coarseY = 31 := by
        intro h
        have h31 : (place row column).coarseY.toNat = 31 := by rw [h]; rfl
        omega
      have htable : (row + 1) % 480 / 240 % 2 = row / 240 % 2 := by omega
      have htile : (row + 1) % 480 % 240 / 8 = row % 240 / 8 + 1 := by omega
      have hdown : ((place row column).coarseY + 1).toNat = row % 240 / 8 + 1 := by
        rw [UInt16.toNat_add, hcy, show UInt16.toNat 1 = 1 from rfl, Nat.mod_eq_of_lt]
        omega
      rw [if_neg hnot]
      apply eq_place
      rw [toNat_ofFields (by decide) (by omega) (by omega) (by omega) (by omega), hdown, hny, hnx,
        hcx,
        htable, htile, hnext]
      rfl

/-! ## Reloads -/

/-- The fields of packed fields. -/
theorem fields_ofFields {fineY nametableY nametableX coarseY coarseX : UInt16}
    (hf : fineY.toNat < 8) (hy : nametableY.toNat < 2) (hx : nametableX.toNat < 2)
    (hcy : coarseY.toNat < 32) (hcx : coarseX.toNat < 32) :
    (ofFields fineY nametableY nametableX coarseY coarseX).nametableX = nametableX ∧
      (ofFields fineY nametableY nametableX coarseY coarseX).coarseX = coarseX := by
  obtain ⟨-, -, hnx, -, hx'⟩ := fields_of_toNat hf hy hx hcy hcx (toNat_ofFields hf hy hx hcy hcx)
  exact ⟨UInt16.toNat_inj.mp hnx, UInt16.toNat_inj.mp hx'⟩

/-- Lines begin at the column of `t`. -/
theorem withColumnOf_place (row column : Nat) (t : VramAddress) :
    (place row column).withColumnOf t = place row t.column := by
  obtain ⟨hfy, hny, -, hcy, -⟩ := fields_place row column
  obtain ⟨-, -, htx, -, htcx⟩ := t.fields_lt
  have htable : t.column / 32 % 2 = t.nametableX.toNat := by
    unfold VramAddress.column
    omega
  have htile : t.column % 32 = t.coarseX.toNat := by
    unfold VramAddress.column
    omega
  apply eq_place
  unfold withColumnOf
  rw [toNat_ofFields (by omega) (by omega) htx (by omega) htcx, hfy, hny, hcy, htable, htile]

/-- Pictures begin at the row of `t`, if that is a row of the picture. -/
theorem withRowOf_eq {v t : VramAddress} (ht : t.coarseY.toNat ≤ 29)
    (hx : v.nametableX = t.nametableX) (hcx : v.coarseX = t.coarseX) :
    v.withRowOf t = place t.row t.column := by
  obtain ⟨htf, hty, htx, htcy, htcx⟩ := t.fields_lt
  have hfine : t.row % 8 = t.fineY.toNat := by
    unfold VramAddress.row
    omega
  have htable : t.row / 240 % 2 = t.nametableY.toNat := by
    unfold VramAddress.row
    omega
  have htile : t.row % 240 / 8 = t.coarseY.toNat := by
    unfold VramAddress.row
    omega
  have hacross : t.column / 32 % 2 = t.nametableX.toNat := by
    unfold VramAddress.column
    omega
  have hcolumn : t.column % 32 = t.coarseX.toNat := by
    unfold VramAddress.column
    omega
  apply eq_place
  unfold withRowOf
  rw [hx, hcx, toNat_ofFields htf hty htx htcy htcx, hfine, htable, htile, hacross, hcolumn]

/-- Where the next picture begins, wherever the unit was before. -/
theorem place_of_reload {v t : VramAddress} (ht : t.coarseY.toNat ≤ 29) :
    ((v.withColumnOf t).withRowOf t).withRowOf t = place t.row t.column := by
  obtain ⟨hvf, hvy, -, hvcy, -⟩ := v.fields_lt
  obtain ⟨htf, hty, htx, htcy, htcx⟩ := t.fields_lt
  have hcolumn := fields_ofFields hvf hvy htx hvcy htcx
  have hfirst : (v.withColumnOf t).withRowOf t =
      ofFields t.fineY t.nametableY t.nametableX t.coarseY t.coarseX := by
    unfold withRowOf withColumnOf
    rw [hcolumn.1, hcolumn.2]
  have hrow := fields_ofFields htf hty htx htcy htcx
  rw [hfirst]
  exact withRowOf_eq ht hrow.1 hrow.2

theorem column_lt (t : VramAddress) : t.column < 64 := by
  obtain ⟨-, -, htx, -, htcx⟩ := t.fields_lt
  unfold column
  omega

/-- Rows with tiles lie in the picture. -/
theorem row_lt {t : VramAddress} (ht : t.coarseY.toNat ≤ 29) : t.row < 480 := by
  obtain ⟨htf, hty, -⟩ := t.fields_lt
  unfold row
  omega

/-! ## What lies at a place -/

section

variable {row column : Nat} (hr : row < 480) (hc : column < 64)

include hr hc

theorem toNat_tileAddress : (place row column).tileAddress.toNat =
    0x2000 + 0x800 * (row / 240) + 0x400 * (column / 32) + 32 * (row % 240 / 8) + column % 32 := by
  have hpacked := toNat_place row column
  have hrow : row / 240 % 2 = row / 240 := by omega
  have hcolumn : column / 32 % 2 = column / 32 := by omega
  simp only [tileAddress, UInt16.toNat_add, UInt16.toNat_mod, UInt16.reduceToNat]
  omega

theorem toNat_attributeAddress : (place row column).attributeAddress.toNat =
    0x23C0 + 0x800 * (row / 240) + 0x400 * (column / 32) + 8 * (row % 240 / 32) +
      column % 32 / 4 := by
  obtain ⟨-, hny, hnx, hcy, hcx⟩ := fields_place row column
  have hrow : row / 240 % 2 = row / 240 := by omega
  have hcolumn : column / 32 % 2 = column / 32 := by omega
  have hblock : row % 240 / 8 / 4 = row % 240 / 32 := Nat.div_div_eq_div_mul _ _ _
  have htop : row / 240 < 2 := by omega
  have hleft : column / 32 < 2 := by omega
  have hdown : row % 240 / 32 < 8 := by omega
  have hright : column % 32 / 4 < 8 := by omega
  simp only [attributeAddress, UInt16.toNat_add, UInt16.toNat_mul, UInt16.toNat_div,
    UInt16.reduceToNat, hny, hnx, hcy, hcx, hrow, hcolumn, hblock]
  generalize row / 240 = top at *
  generalize column / 32 = left at *
  generalize row % 240 / 32 = down at *
  generalize column % 32 / 4 = right at *
  omega

end

theorem toNat_paletteOf (row column : Nat) (palettes : UInt8) :
    ((place row column).paletteOf palettes).toNat =
      palettes.toNat >>> (4 * (row % 240 / 16 % 2) + 2 * (column % 32 / 2 % 2)) % 4 := by
  obtain ⟨-, -, -, hcy, hcx⟩ := fields_place row column
  have hshift : (4 * ((place row column).coarseY / 2 % 2) +
      2 * ((place row column).coarseX / 2 % 2)).toUInt8.toNat =
      4 * (row % 240 / 16 % 2) + 2 * (column % 32 / 2 % 2) := by
    simp only [UInt16.toNat_toUInt8, UInt16.toNat_add, UInt16.toNat_mul, UInt16.toNat_div,
      UInt16.toNat_mod, UInt16.reduceToNat, hcy, hcx]
    omega
  have hlt : 4 * (row % 240 / 16 % 2) + 2 * (column % 32 / 2 % 2) < 8 := by omega
  unfold paletteOf
  rw [UInt8.toNat_mod, UInt8.toNat_shiftRight, hshift, Nat.mod_eq_of_lt hlt]
  rfl

end VramAddress

end Famicom
