import Mathlib.Data.List.Induction
import Mathlib.Logic.Function.Iterate
import Famicom.Proofs.Ppu.WellFormed

/-!
# The scroll counters

While it renders, the unit counts in its address register: tile columns across two nametables, and
pixel rows down two nametables. An address of 15 bits is a line and a column, if the lines also
number the rows of the attributes, which hold no tiles. A step counts one of the two and leaves the
other alone, so steps in different directions can be taken in any order.

* `VramAddress.eq_of_line_column`: an address is its line and its column.
* `VramAddress.line_column_nextColumn`, `VramAddress.line_column_nextRow`: what a step counts.
* `VramAddress.iterate_lineBelow_of_tiles`, `VramAddress.iterate_lineBelow_of_attributes`: lines in
  closed form.
* `Ppu.countsScroll`: both counters over any number of steps, and the reloads.
-/

namespace Famicom

namespace VramAddress

/-- The pixel row of an address among the 512 of two nametables. Of the 256 rows of a nametable the
last sixteen are those of the attributes. -/
def line (v : VramAddress) : Nat :=
  256 * v.nametableY.toNat + 8 * v.coarseY.toNat + v.fineY.toNat

/-- The line to which a step leads. Below the last line with tiles lies the other nametable, and
below the last of all lines the same again. -/
def lineBelow (line : Nat) : Nat :=
  if line % 256 = 239 then 256 * (1 - line / 256)
  else if line % 256 = 255 then line - 255
  else line + 1

/-! ## Addresses as lines and columns -/

section

variable {v w : VramAddress}

theorem toNat_eq_fields (h : v < 0x8000) :
    v.toNat = 0x1000 * v.fineY.toNat + 0x800 * v.nametableY.toNat + 0x400 * v.nametableX.toNat +
      32 * v.coarseY.toNat + v.coarseX.toNat := by
  have hlt : v.toNat < 0x8000 := h
  simp only [fineY, nametableY, nametableX, coarseY, coarseX, UInt16.toNat_mod, UInt16.toNat_div,
    UInt16.reduceToNat]
  omega

theorem eq_of_line_column (hv : v < 0x8000) (hw : w < 0x8000) (hline : v.line = w.line)
    (hcolumn : v.column = w.column) : v = w := by
  obtain ⟨hvf, -, -, hvcy, hvcx⟩ := v.fields_lt
  obtain ⟨hwf, -, -, hwcy, hwcx⟩ := w.fields_lt
  unfold line at hline
  unfold column at hcolumn
  apply UInt16.toNat_inj.mp
  rw [toNat_eq_fields hv, toNat_eq_fields hw]
  omega

theorem line_lt (v : VramAddress) : v.line < 512 := by
  obtain ⟨hf, hy, -, hcy, -⟩ := v.fields_lt
  unfold line
  omega

/-- The fields of an address that are read off its line. -/
theorem fields_of_line (v : VramAddress) :
    v.fineY.toNat = v.line % 8 ∧ v.nametableY.toNat = v.line / 256 ∧
      v.coarseY.toNat = v.line % 256 / 8 := by
  obtain ⟨hf, -, -, hcy, -⟩ := v.fields_lt
  unfold line
  omega

/-- The fields of an address that are read off its column. -/
theorem fields_of_column (v : VramAddress) :
    v.nametableX.toNat = v.column / 32 ∧ v.coarseX.toNat = v.column % 32 := by
  obtain ⟨-, -, -, -, hcx⟩ := v.fields_lt
  unfold column
  omega

/-- The row of an address among those of the picture. -/
theorem row_eq (v : VramAddress) : v.row = 240 * (v.line / 256) + v.line % 256 := by
  obtain ⟨hf, -, -, hcy, -⟩ := v.fields_lt
  unfold row line
  omega

theorem line_column_of_toNat {fineY nametableY nametableX coarseY coarseX : Nat} (hf : fineY < 8)
    (hy : nametableY < 2) (hx : nametableX < 2) (hcy : coarseY < 32) (hcx : coarseX < 32)
    (h : v.toNat =
      0x1000 * fineY + 0x800 * nametableY + 0x400 * nametableX + 32 * coarseY + coarseX) :
    v.line = 256 * nametableY + 8 * coarseY + fineY ∧ v.column = 32 * nametableX + coarseX := by
  obtain ⟨hf', hy', hx', hcy', hcx'⟩ := fields_of_toNat hf hy hx hcy hcx h
  unfold line column
  omega

theorem line_column_ofFields {fineY nametableY nametableX coarseY coarseX : UInt16}
    (hf : fineY.toNat < 8) (hy : nametableY.toNat < 2) (hx : nametableX.toNat < 2)
    (hcy : coarseY.toNat < 32) (hcx : coarseX.toNat < 32) :
    (ofFields fineY nametableY nametableX coarseY coarseX).line =
        256 * nametableY.toNat + 8 * coarseY.toNat + fineY.toNat ∧
      (ofFields fineY nametableY nametableX coarseY coarseX).column =
        32 * nametableX.toNat + coarseX.toNat :=
  line_column_of_toNat hf hy hx hcy hcx (toNat_ofFields hf hy hx hcy hcx)

/-! ## One step -/

/-- A step to the right counts the column. -/
theorem line_column_nextColumn (h : v < 0x8000) :
    v.nextColumn.line = v.line ∧ v.nextColumn.column = (v.column + 1) % 64 := by
  obtain ⟨hf, hy, hx, hcy, hcx⟩ := v.fields_lt
  have hother : (1 - v.nametableX).toNat = 1 - v.nametableX.toNat % 2 :=
    toNat_other (Nat.mod_eq_of_lt hx).symm
  unfold nextColumn
  split
  · next hlast =>
    have hend : v.coarseX.toNat = 31 := congrArg UInt16.toNat hlast
    have hfirst : (0 : UInt16).toNat < 32 := by decide
    obtain ⟨hline, hcolumn⟩ := line_column_ofFields hf hy (other_lt hx) hcy hfirst
    rw [hline, hcolumn, hother, column, hend]
    simp only [UInt16.reduceToNat]
    exact ⟨rfl, by omega⟩
  · next hlast =>
    have hend : v.coarseX.toNat ≠ 31 := fun heq => hlast (UInt16.toNat_inj.mp heq)
    have hsum : (v + 1).toNat = v.toNat + 1 := toNat_add_of_lt h (by decide)
    rw [toNat_eq_fields h] at hsum
    have hright : v.coarseX.toNat + 1 < 32 := by omega
    obtain ⟨hline, hcolumn⟩ := line_column_of_toNat hf hy hx hcy hright hsum
    rw [hline, hcolumn]
    unfold line column
    omega

/-- A step down counts the line. -/
theorem line_column_nextRow (h : v < 0x8000) :
    v.nextRow.line = lineBelow v.line ∧ v.nextRow.column = v.column := by
  obtain ⟨hf, hy, hx, hcy, hcx⟩ := v.fields_lt
  have hother : (1 - v.nametableY).toNat = 1 - v.nametableY.toNat % 2 :=
    toNat_other (Nat.mod_eq_of_lt hy).symm
  obtain ⟨hline8, hline256, hline⟩ := v.fields_of_line
  have hlt := v.line_lt
  unfold nextRow
  split
  · next hfine =>
    have hinside : v.fineY.toNat ≠ 7 := fun heq => hfine (UInt16.toNat_inj.mp heq)
    have hsum : (v + 0x1000).toNat = v.toNat + 0x1000 := toNat_add_of_lt h (by decide)
    rw [toNat_eq_fields h] at hsum
    have hdown : v.fineY.toNat + 1 < 8 := by omega
    have hfields : (v + 0x1000).toNat = 0x1000 * (v.fineY.toNat + 1) +
        0x800 * v.nametableY.toNat + 0x400 * v.nametableX.toNat + 32 * v.coarseY.toNat +
          v.coarseX.toNat := by omega
    obtain ⟨hnext, hcolumn⟩ := line_column_of_toNat hdown hy hx hcy hcx hfields
    rw [hnext, hcolumn, lineBelow, if_neg (by omega), if_neg (by omega)]
    exact ⟨rfl, rfl⟩
  · next hfine =>
    have hlast : v.fineY.toNat = 7 := congrArg UInt16.toNat (Classical.not_not.mp hfine)
    have htop : (0 : UInt16).toNat < 8 := by decide
    have hfirst : (0 : UInt16).toNat < 32 := by decide
    split
    · next htiles =>
      have hrow : v.coarseY.toNat = 29 := congrArg UInt16.toNat htiles
      obtain ⟨hnext, hcolumn⟩ := line_column_ofFields htop (other_lt hy) hx hfirst hcx
      rw [hnext, hcolumn, hother, lineBelow, if_pos (by omega)]
      simp only [UInt16.reduceToNat]
      exact ⟨by omega, rfl⟩
    · next htiles =>
      have hrow : v.coarseY.toNat ≠ 29 := fun heq => htiles (UInt16.toNat_inj.mp heq)
      split
      · next hattributes =>
        have hend : v.coarseY.toNat = 31 := congrArg UInt16.toNat hattributes
        obtain ⟨hnext, hcolumn⟩ := line_column_ofFields htop hy hx hfirst hcx
        rw [hnext, hcolumn, lineBelow, if_neg (by omega), if_pos (by omega)]
        simp only [UInt16.reduceToNat]
        exact ⟨by omega, rfl⟩
      · next hattributes =>
        have hend : v.coarseY.toNat ≠ 31 := fun heq => hattributes (UInt16.toNat_inj.mp heq)
        have hdown : (v.coarseY + 1).toNat = v.coarseY.toNat + 1 := by
          rw [UInt16.toNat_add]
          exact Nat.mod_eq_of_lt (by simp only [UInt16.reduceToNat]; omega)
        have hinside : (v.coarseY + 1).toNat < 32 := by omega
        obtain ⟨hnext, hcolumn⟩ := line_column_ofFields htop hy hx hinside hcx
        rw [hnext, hcolumn, hdown, lineBelow, if_neg (by omega), if_neg (by omega)]
        simp only [UInt16.reduceToNat]
        exact ⟨by omega, rfl⟩

end

/-! ## Reloads -/

section

variable (v t : VramAddress)

@[simp] theorem line_withColumnOf : (v.withColumnOf t).line = v.line := by
  obtain ⟨hf, hy, -, hcy, -⟩ := v.fields_lt
  obtain ⟨-, -, hx, -, hcx⟩ := t.fields_lt
  exact (line_column_ofFields hf hy hx hcy hcx).1

@[simp] theorem column_withColumnOf : (v.withColumnOf t).column = t.column := by
  obtain ⟨hf, hy, -, hcy, -⟩ := v.fields_lt
  obtain ⟨-, -, hx, -, hcx⟩ := t.fields_lt
  exact (line_column_ofFields hf hy hx hcy hcx).2

@[simp] theorem line_withRowOf : (v.withRowOf t).line = t.line := by
  obtain ⟨-, -, hx, -, hcx⟩ := v.fields_lt
  obtain ⟨hf, hy, -, hcy, -⟩ := t.fields_lt
  exact (line_column_ofFields hf hy hx hcy hcx).1

@[simp] theorem column_withRowOf : (v.withRowOf t).column = v.column := by
  obtain ⟨-, -, hx, -, hcx⟩ := v.fields_lt
  obtain ⟨hf, hy, -, hcy, -⟩ := t.fields_lt
  exact (line_column_ofFields hf hy hx hcy hcx).2

theorem withColumnOf_withColumnOf : (v.withColumnOf t).withColumnOf t = v.withColumnOf t :=
  eq_of_line_column (withColumnOf_lt _ _) (withColumnOf_lt _ _) (by simp) (by simp)

theorem withRowOf_withRowOf : (v.withRowOf t).withRowOf t = v.withRowOf t :=
  eq_of_line_column (withRowOf_lt _ _) (withRowOf_lt _ _) (by simp) (by simp)

theorem withRowOf_withColumnOf :
    (v.withColumnOf t).withRowOf t = (v.withRowOf t).withColumnOf t :=
  eq_of_line_column (withRowOf_lt _ _) (withColumnOf_lt _ _) (by simp) (by simp)

variable {v t}

theorem withColumnOf_nextRow (h : v < 0x8000) :
    v.nextRow.withColumnOf t = (v.withColumnOf t).nextRow := by
  have hlt := withColumnOf_lt v t
  obtain ⟨hline, -⟩ := line_column_nextRow h
  obtain ⟨hline', hcolumn'⟩ := line_column_nextRow hlt
  apply eq_of_line_column (withColumnOf_lt _ _) (nextRow_lt hlt)
  · rw [line_withColumnOf, hline, hline', line_withColumnOf]
  · rw [column_withColumnOf, hcolumn', column_withColumnOf]

theorem withRowOf_nextColumn (h : v < 0x8000) :
    v.nextColumn.withRowOf t = (v.withRowOf t).nextColumn := by
  have hlt := withRowOf_lt v t
  obtain ⟨-, hcolumn⟩ := line_column_nextColumn h
  obtain ⟨hline', hcolumn'⟩ := line_column_nextColumn hlt
  apply eq_of_line_column (withRowOf_lt _ _) (nextColumn_lt hlt)
  · rw [line_withRowOf, hline', line_withRowOf]
  · rw [column_withRowOf, hcolumn, hcolumn', column_withRowOf]

/-- Both reloads together take over the whole address. -/
theorem withColumnOf_withRowOf_eq (ht : t < 0x8000) : (v.withColumnOf t).withRowOf t = t :=
  eq_of_line_column (withRowOf_lt _ _) ht (by simp) (by simp)

end

/-! ## Any number of steps -/

theorem iterate_nextColumn {v : VramAddress} (h : v < 0x8000) (n : Nat) :
    nextColumn^[n] v < 0x8000 ∧ (nextColumn^[n] v).line = v.line ∧
      (nextColumn^[n] v).column = (v.column + n) % 64 := by
  induction n with
  | zero => exact ⟨h, rfl, (Nat.mod_eq_of_lt v.column_lt).symm⟩
  | succ n ih =>
    obtain ⟨hlt, hline, hcolumn⟩ := ih
    obtain ⟨hnextLine, hnextColumn⟩ := line_column_nextColumn hlt
    rw [Function.iterate_succ_apply', hnextLine, hnextColumn, hline, hcolumn, Nat.mod_add_mod]
    exact ⟨nextColumn_lt hlt, rfl, rfl⟩

theorem iterate_nextRow {v : VramAddress} (h : v < 0x8000) (n : Nat) :
    nextRow^[n] v < 0x8000 ∧ (nextRow^[n] v).line = lineBelow^[n] v.line ∧
      (nextRow^[n] v).column = v.column := by
  induction n with
  | zero => exact ⟨h, rfl, rfl⟩
  | succ n ih =>
    obtain ⟨hlt, hline, hcolumn⟩ := ih
    obtain ⟨hnextLine, hnextColumn⟩ := line_column_nextRow hlt
    rw [Function.iterate_succ_apply', Function.iterate_succ_apply', hnextLine, hnextColumn, hline,
      hcolumn]
    exact ⟨nextRow_lt hlt, rfl, rfl⟩

/-- From a line with tiles, lines are counted as the rows of a picture of 480. -/
theorem iterate_lineBelow_of_tiles {line : Nat} (hlt : line < 512) (htiles : line % 256 < 240)
    (n : Nat) :
    lineBelow^[n] line < 512 ∧ lineBelow^[n] line % 256 < 240 ∧
      240 * (lineBelow^[n] line / 256) + lineBelow^[n] line % 256 =
        (240 * (line / 256) + line % 256 + n) % 480 := by
  induction n with
  | zero =>
    rw [Function.iterate_zero_apply]
    omega
  | succ n ih =>
    obtain ⟨hbound, hrow, hcount⟩ := ih
    rw [Function.iterate_succ_apply']
    generalize lineBelow^[n] line = reached at hbound hrow hcount ⊢
    unfold lineBelow
    split
    · omega
    · rw [if_neg (by omega)]
      omega

/-- From a line without tiles, they are counted to the end of the nametable. -/
theorem iterate_lineBelow_of_attributes {line : Nat} (hrow : 240 ≤ line % 256) {n : Nat}
    (hn : line % 256 + n < 256) : lineBelow^[n] line = line + n := by
  induction n with
  | zero => rfl
  | succ n ih =>
    rw [Function.iterate_succ_apply', ih (by omega), lineBelow, if_neg (by omega),
      if_neg (by omega), Nat.add_assoc]

/-- There they begin again at the top of the same nametable. -/
theorem iterate_lineBelow_to_top {line : Nat} (hrow : 240 ≤ line % 256) :
    lineBelow^[256 - line % 256] line = 256 * (line / 256) := by
  obtain ⟨n, hn⟩ : ∃ n, 256 - line % 256 = n + 1 := ⟨255 - line % 256, by omega⟩
  rw [hn, Function.iterate_succ_apply', iterate_lineBelow_of_attributes hrow (by omega), lineBelow,
    if_neg (by omega), if_pos (by omega)]
  omega

section

variable {v : VramAddress} (h : v < 0x8000) {n : Nat}

include h

/-- Steps down from a row with tiles. -/
theorem row_iterate_nextRow_of_tiles (htiles : v.coarseY.toNat ≤ 29) :
    (nextRow^[n] v).row = (v.row + n) % 480 ∧ (nextRow^[n] v).coarseY.toNat ≤ 29 := by
  obtain ⟨-, hline, -⟩ := iterate_nextRow h n
  obtain ⟨-, -, hcy⟩ := v.fields_of_line
  obtain ⟨-, hrow, hcount⟩ := iterate_lineBelow_of_tiles v.line_lt (by omega) n
  obtain ⟨-, -, hcy'⟩ := (nextRow^[n] v).fields_of_line
  rw [row_eq, row_eq, hcy', hline]
  exact ⟨hcount, by omega⟩

/-- Steps down from a row without tiles, within the nametable. -/
theorem row_iterate_nextRow_of_attributes (hattributes : 30 ≤ v.coarseY.toNat)
    (hn : 8 * v.coarseY.toNat + v.fineY.toNat + n < 256) :
    8 * (nextRow^[n] v).coarseY.toNat + (nextRow^[n] v).fineY.toNat =
        8 * v.coarseY.toNat + v.fineY.toNat + n ∧
      (nextRow^[n] v).nametableY = v.nametableY := by
  obtain ⟨-, hline, -⟩ := iterate_nextRow h n
  obtain ⟨hf, hy, hcy⟩ := v.fields_of_line
  obtain ⟨hf', hy', hcy'⟩ := (nextRow^[n] v).fields_of_line
  rw [hline, iterate_lineBelow_of_attributes (by omega) (by omega)] at hf' hy' hcy'
  refine ⟨by omega, UInt16.toNat_inj.mp ?_⟩
  rw [hy', hy]
  omega

/-- Steps down from a row without tiles, beyond the last row of the nametable. -/
theorem row_iterate_nextRow_beyond (hattributes : 30 ≤ v.coarseY.toNat)
    (hn : 256 ≤ 8 * v.coarseY.toNat + v.fineY.toNat + n) :
    (nextRow^[n] v).row =
        (240 * v.nametableY.toNat + (8 * v.coarseY.toNat + v.fineY.toNat + n - 256)) % 480 ∧
      (nextRow^[n] v).coarseY.toNat ≤ 29 := by
  obtain ⟨-, hline, -⟩ := iterate_nextRow h n
  obtain ⟨hf, hy, hcy⟩ := v.fields_of_line
  have hbound := v.line_lt
  -- After as many steps as there are rows left, the top of the nametable is reached.
  obtain ⟨rest, hrest⟩ : ∃ rest, n = rest + (256 - v.line % 256) :=
    ⟨n - (256 - v.line % 256), by omega⟩
  have hlines : lineBelow^[n] v.line = lineBelow^[rest] (256 * (v.line / 256)) := by
    rw [hrest, Function.iterate_add_apply, iterate_lineBelow_to_top (by omega)]
  have htop : 256 * (v.line / 256) < 512 := by omega
  obtain ⟨-, hrow, hcount⟩ := iterate_lineBelow_of_tiles htop (by omega) rest
  rw [← hlines, ← hline] at hrow hcount
  have hsum : 240 * (256 * (v.line / 256) / 256) + 256 * (v.line / 256) % 256 + rest =
      240 * v.nametableY.toNat + (8 * v.coarseY.toNat + v.fineY.toNat + n - 256) := by omega
  obtain ⟨-, -, hcy'⟩ := (nextRow^[n] v).fields_of_line
  rw [row_eq, hcount, hsum, hcy']
  exact ⟨rfl, by omega⟩

end

end VramAddress

/-! ## The picture unit -/

/-- An address of 15 bits that differs from another in its column only. -/
structure VramAddress.SameRow (v later : VramAddress) : Prop where
  lt : later < 0x8000
  fineY : later.fineY = v.fineY
  nametableY : later.nametableY = v.nametableY
  coarseY : later.coarseY = v.coarseY

/-- An address of 15 bits that differs from another in its row only. -/
structure VramAddress.SameColumn (v later : VramAddress) : Prop where
  lt : later < 0x8000
  nametableX : later.nametableX = v.nametableX
  coarseX : later.coarseX = v.coarseX

/-- A step of the scroll counters. -/
inductive ScrollStep where
  /-- One tile to the right. -/
  | column
  /-- One pixel row down. -/
  | row
  deriving DecidableEq, Repr

namespace VramAddress

variable {v : VramAddress}

theorem sameRow_iterate_nextColumn (h : v < 0x8000) (n : Nat) : v.SameRow (nextColumn^[n] v) := by
  obtain ⟨hlt, hline, -⟩ := iterate_nextColumn h n
  obtain ⟨hf, hy, hcy⟩ := v.fields_of_line
  obtain ⟨hf', hy', hcy'⟩ := (nextColumn^[n] v).fields_of_line
  rw [hline] at hf' hy' hcy'
  exact ⟨hlt, UInt16.toNat_inj.mp (hf'.trans hf.symm), UInt16.toNat_inj.mp (hy'.trans hy.symm),
    UInt16.toNat_inj.mp (hcy'.trans hcy.symm)⟩

theorem sameColumn_iterate_nextRow (h : v < 0x8000) (n : Nat) : v.SameColumn (nextRow^[n] v) := by
  obtain ⟨hlt, -, hcolumn⟩ := iterate_nextRow h n
  obtain ⟨hx, hcx⟩ := v.fields_of_column
  obtain ⟨hx', hcx'⟩ := (nextRow^[n] v).fields_of_column
  rw [hcolumn] at hx' hcx'
  exact ⟨hlt, UInt16.toNat_inj.mp (hx'.trans hx.symm), UInt16.toNat_inj.mp (hcx'.trans hcx.symm)⟩

end VramAddress

namespace Ppu

/-- Take a step. -/
def scroll (ppu : Ppu) : ScrollStep → Ppu
  | .column => ppu.nextColumn
  | .row => ppu.nextRow

/-- The unit with another address. -/
def withAddress (ppu : Ppu) (v : VramAddress) : Ppu := { ppu with v }

/-- Take steps, one after the other. -/
def scrollAll (ppu : Ppu) (steps : List ScrollStep) : Ppu := steps.foldl scroll ppu

/-- How the unit counts in its address register, and how it reloads it. -/
structure CountsScroll (ppu : Ppu) : Prop where
  /-- Steps change the address register and nothing else. -/
  changes : ∀ steps, ppu.scrollAll steps = { ppu with v := (ppu.scrollAll steps).v }
  /-- Steps to the right go round two nametables of 32 columns. -/
  columns : ∀ n, (nextColumn^[n] ppu).v.column = (ppu.v.column + n) % 64 ∧
    ppu.v.SameRow (nextColumn^[n] ppu).v
  /-- Steps down, from a row with tiles, go round two nametables of 240 rows. -/
  rows : ppu.v.coarseY.toNat ≤ 29 → ∀ n,
    (nextRow^[n] ppu).v.row = (ppu.v.row + n) % 480 ∧ (nextRow^[n] ppu).v.coarseY.toNat ≤ 29 ∧
      ppu.v.SameColumn (nextRow^[n] ppu).v
  /-- From a row without tiles, they go on to the last row of the nametable. -/
  attributeRows : 30 ≤ ppu.v.coarseY.toNat → ∀ n,
    8 * ppu.v.coarseY.toNat + ppu.v.fineY.toNat + n < 256 →
      8 * (nextRow^[n] ppu).v.coarseY.toNat + (nextRow^[n] ppu).v.fineY.toNat =
          8 * ppu.v.coarseY.toNat + ppu.v.fineY.toNat + n ∧
        (nextRow^[n] ppu).v.nametableY = ppu.v.nametableY ∧
        ppu.v.SameColumn (nextRow^[n] ppu).v
  /-- There they begin again at the top of the same nametable, and count as from there. -/
  beyondAttributes : 30 ≤ ppu.v.coarseY.toNat → ∀ n,
    256 ≤ 8 * ppu.v.coarseY.toNat + ppu.v.fineY.toNat + n →
      (nextRow^[n] ppu).v.row = (240 * ppu.v.nametableY.toNat +
          (8 * ppu.v.coarseY.toNat + ppu.v.fineY.toNat + n - 256)) % 480 ∧
        (nextRow^[n] ppu).v.coarseY.toNat ≤ 29 ∧ ppu.v.SameColumn (nextRow^[n] ppu).v
  /-- In whatever order steps are taken, all steps to the right may be taken first. -/
  inAnyOrder : ∀ steps, ppu.scrollAll steps =
    nextRow^[steps.count .row] (nextColumn^[steps.count .column] ppu)
  /-- A reload that is made again changes nothing. -/
  reloadColumn_twice : ppu.reloadColumn.reloadColumn = ppu.reloadColumn
  reloadRow_twice : ppu.reloadRow.reloadRow = ppu.reloadRow
  /-- The order of the two reloads does not matter, -/
  reload_reload : ppu.reloadColumn.reloadRow = ppu.reloadRow.reloadColumn
  /-- nor that of a reload and a step in the other direction. -/
  nextRow_reloadColumn : ppu.nextRow.reloadColumn = ppu.reloadColumn.nextRow
  nextColumn_reloadRow : ppu.nextColumn.reloadRow = ppu.reloadRow.nextColumn
  /-- Both reloads together make the address the one at which pictures begin. -/
  reload_both : ppu.reloadColumn.reloadRow = { ppu with v := ppu.t }

/-! ### Steps -/

/-- Steps of one kind are steps of the address register. -/
theorem iterate_eq {step : Ppu → Ppu} {move : VramAddress → VramAddress}
    (hstep : ∀ ppu, step ppu = { ppu with v := move ppu.v }) (ppu : Ppu) (n : Nat) :
    step^[n] ppu = { ppu with v := move^[n] ppu.v } := by
  induction n with
  | zero => rfl
  | succ n ih => rw [Function.iterate_succ_apply', Function.iterate_succ_apply', ih, hstep]

theorem iterate_nextColumn_eq (ppu : Ppu) (n : Nat) :
    nextColumn^[n] ppu = { ppu with v := VramAddress.nextColumn^[n] ppu.v } :=
  iterate_eq (fun _ => rfl) ppu n

theorem iterate_nextRow_eq (ppu : Ppu) (n : Nat) :
    nextRow^[n] ppu = { ppu with v := VramAddress.nextRow^[n] ppu.v } :=
  iterate_eq (fun _ => rfl) ppu n

/-- Whatever the order of steps, each counter has counted its own. -/
theorem scrollAll_counts {ppu : Ppu} (h : ppu.v < 0x8000) (steps : List ScrollStep) :
    ∃ v, ppu.scrollAll steps = { ppu with v } ∧ v < 0x8000 ∧
      v.line = VramAddress.lineBelow^[steps.count .row] ppu.v.line ∧
      v.column = (ppu.v.column + steps.count .column) % 64 := by
  induction steps using List.reverseRecOn with
  | nil => exact ⟨ppu.v, rfl, h, rfl, (Nat.mod_eq_of_lt ppu.v.column_lt).symm⟩
  | append_singleton steps step ih =>
    obtain ⟨v, hsteps, hlt, hline, hcolumn⟩ := ih
    have hlast : ppu.scrollAll (steps ++ [step]) = scroll { ppu with v } step := by
      rw [← hsteps, scrollAll, List.foldl_append]
      rfl
    rw [hlast, List.count_append, List.count_append]
    cases step with
    | column =>
      obtain ⟨hsame, hcount⟩ := VramAddress.line_column_nextColumn hlt
      refine ⟨v.nextColumn, rfl, VramAddress.nextColumn_lt hlt, hsame.trans hline, ?_⟩
      rw [hcount, hcolumn, Nat.mod_add_mod]
      rfl
    | row =>
      obtain ⟨hcount, hsame⟩ := VramAddress.line_column_nextRow hlt
      refine ⟨v.nextRow, rfl, VramAddress.nextRow_lt hlt, ?_, hsame.trans hcolumn⟩
      rw [hcount, hline]
      exact (Function.iterate_succ_apply' _ _ _).symm

theorem scrollAll_eq {ppu : Ppu} (h : ppu.v < 0x8000) (steps : List ScrollStep) :
    ppu.scrollAll steps =
      nextRow^[steps.count .row] (nextColumn^[steps.count .column] ppu) := by
  obtain ⟨v, hsteps, hlt, hline, hcolumn⟩ := scrollAll_counts h steps
  obtain ⟨hacrossLt, hacrossLine, hacrossColumn⟩ :=
    VramAddress.iterate_nextColumn h (steps.count .column)
  obtain ⟨hdownLt, hdownLine, hdownColumn⟩ :=
    VramAddress.iterate_nextRow hacrossLt (steps.count .row)
  have hv : v = VramAddress.nextRow^[steps.count .row]
      (VramAddress.nextColumn^[steps.count .column] ppu.v) := by
    apply VramAddress.eq_of_line_column hlt hdownLt
    · rw [hline, hdownLine, hacrossLine]
    · rw [hcolumn, hdownColumn, hacrossColumn]
  rw [hsteps, iterate_nextColumn_eq, iterate_nextRow_eq, hv]

theorem countsScroll {ppu : Ppu} (hv : ppu.v < 0x8000) (ht : ppu.t < 0x8000) :
    ppu.CountsScroll where
  changes steps := by
    obtain ⟨v, hsteps, -⟩ := scrollAll_counts hv steps
    rw [hsteps]
  columns n := by
    obtain ⟨-, -, hcolumn⟩ := VramAddress.iterate_nextColumn hv n
    rw [iterate_nextColumn_eq]
    exact ⟨hcolumn, VramAddress.sameRow_iterate_nextColumn hv n⟩
  rows htiles n := by
    obtain ⟨hrow, hcy⟩ := VramAddress.row_iterate_nextRow_of_tiles hv htiles
    rw [iterate_nextRow_eq]
    exact ⟨hrow, hcy, VramAddress.sameColumn_iterate_nextRow hv n⟩
  attributeRows hattributes n hn := by
    obtain ⟨hrow, hy⟩ := VramAddress.row_iterate_nextRow_of_attributes hv hattributes hn
    rw [iterate_nextRow_eq]
    exact ⟨hrow, hy, VramAddress.sameColumn_iterate_nextRow hv n⟩
  beyondAttributes hattributes n hn := by
    obtain ⟨hrow, hcy⟩ := VramAddress.row_iterate_nextRow_beyond hv hattributes hn
    rw [iterate_nextRow_eq]
    exact ⟨hrow, hcy, VramAddress.sameColumn_iterate_nextRow hv n⟩
  inAnyOrder := scrollAll_eq hv
  reloadColumn_twice := congrArg (withAddress ppu) (VramAddress.withColumnOf_withColumnOf _ _)
  reloadRow_twice := congrArg (withAddress ppu) (VramAddress.withRowOf_withRowOf _ _)
  reload_reload := congrArg (withAddress ppu) (VramAddress.withRowOf_withColumnOf _ _)
  nextRow_reloadColumn := congrArg (withAddress ppu) (VramAddress.withColumnOf_nextRow hv)
  nextColumn_reloadRow := congrArg (withAddress ppu) (VramAddress.withRowOf_nextColumn hv)
  reload_both := congrArg (withAddress ppu) (VramAddress.withColumnOf_withRowOf_eq ht)

/-- The last row and the last column of the first nametable. Pictures begin in another one. -/
def inLastCorner : Ppu := { powerOn .ntsc with v := 0x73FF, t := 0x2C65 }

theorem countsScroll_inLastCorner :
    (inLastCorner.v < 0x8000 ∧ inLastCorner.t < 0x8000 ∧ 30 ≤ inLastCorner.v.coarseY.toNat) ∧
      (nextColumn^[33] inLastCorner).v.column = 0 ∧
      (nextRow^[1] inLastCorner).v.row = 0 ∧ (nextRow^[241] inLastCorner).v.row = 240 ∧
      (nextRow^[240] { inLastCorner with v := 0x2C65 }).v.row = 26 := by
  have hcorner : inLastCorner.v < 0x8000 ∧ inLastCorner.t < 0x8000 ∧
      30 ≤ inLastCorner.v.coarseY.toNat := by decide
  have hcounts := countsScroll hcorner.1 hcorner.2.1
  have htop : CountsScroll { inLastCorner with v := 0x2C65 } :=
    countsScroll (by decide) (by decide)
  refine ⟨hcorner, ?_, ?_, ?_, ?_⟩
  · exact (hcounts.columns 33).1
  · exact (hcounts.beyondAttributes hcorner.2.2 1 (by decide)).1
  · exact (hcounts.beyondAttributes hcorner.2.2 241 (by decide)).1
  · exact (htop.rows (by decide) 240).1

end Ppu

end Famicom
