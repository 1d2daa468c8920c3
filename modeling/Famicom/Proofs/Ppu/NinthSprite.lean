import Mathlib.Data.Nat.Count
import Famicom.Proofs.Ppu.CheckedSprites

/-!
# The search for a ninth sprite

Once eight sprites have been found, the unit goes on to see whether there is another one. It
compares a byte of each later sprite with the line, but not always the one that is its vertical
position: the byte moves on with the sprite, so the search walks along a diagonal of sprite memory.
It may take a tile number, flags or a column for a position, and it may pass a ninth sprite by.

* `Sprite.IsEighth`: the sprite behind which the walk begins.
* `Sprite.diagonal`: the places that the walk looks at.
* `Sprite.overflowWalk_of_reaches`, `Sprite.overflowWalk_of_none`: where it ends.
* `Ppu.walksDiagonal`: what a search reports of it.
-/

namespace Famicom

/-- What stands at a place of a filtered range: the number below which as many others have passed
the filter as there are places before it. -/
theorem getElem?_filter_range (p : Nat → Prop) [DecidablePred p] (n k e : Nat) :
    ((List.range n).filter fun i => p i)[k]? = some e ↔ e < n ∧ p e ∧ Nat.count p e = k := by
  have hlength (n : Nat) : ((List.range n).filter fun i => p i).length = Nat.count p n := by
    rw [Nat.count_eq_card_filter_range]
    rfl
  induction n with
  | zero => simp
  | succ n ih =>
    rw [List.range_succ, List.filter_append]
    by_cases hk : k < Nat.count p n
    · rw [List.getElem?_append_left (by rwa [hlength])]
      refine ih.trans ?_
      have hne : Nat.count p e = k → e ≠ n := by
        rintro rfl rfl
        exact Nat.lt_irrefl _ hk
      constructor
      · rintro ⟨hlt, hrest⟩
        exact ⟨Nat.lt_succ_of_lt hlt, hrest⟩
      · rintro ⟨hlt, hp, hcount⟩
        exact ⟨Nat.lt_of_le_of_ne (Nat.le_of_lt_succ hlt) (hne hcount), hp, hcount⟩
    · have hge : Nat.count p n ≤ k := Nat.le_of_not_lt hk
      -- A number below `n` that passes the filter has fewer before it than `n` has.
      have heq : e < n + 1 → p e → Nat.count p e = k → e = n := by
        intro hlt hp hcount
        by_contra hne
        have hmore := Nat.count_strict_mono hp (show e < n by omega)
        omega
      rw [List.getElem?_append_right (by rwa [hlength]), hlength]
      by_cases hn : p n
      · have hlast : [n].filter (fun i => p i) = [n] := by simp [hn]
        rw [hlast, List.getElem?_singleton, Option.ite_none_right_eq_some, Option.some.injEq]
        constructor
        · rintro ⟨hzero, rfl⟩
          exact ⟨Nat.lt_succ_self _, hn, by omega⟩
        · rintro ⟨hlt, hp, hcount⟩
          obtain rfl := heq hlt hp hcount
          exact ⟨by omega, rfl⟩
      · have hlast : [n].filter (fun i => p i) = [] := by simp [hn]
        rw [hlast, List.getElem?_nil]
        constructor
        · rintro ⟨⟩
        · rintro ⟨hlt, hp, hcount⟩
          exact absurd (heq hlt hp hcount ▸ hp) hn

namespace Sprite

/-! ## The eighth sprite -/

/-- A sprite of a height whose top is at `y` reaches a line. -/
def Reaches (height line : Nat) (y : UInt8) : Prop := y.toNat ≤ line ∧ line < y.toNat + height
  deriving Decidable

/-- How many of the first `n` sprites reach a line. -/
def countReaching (oam : Memory 256) (height line n : Nat) : Nat :=
  Nat.count (fun i => Reaches height line (oam.load (4 * i))) n

/-- The eighth sprite that reaches a line, in the order of sprite memory. -/
structure IsEighth (oam : Memory 256) (height line e : Nat) : Prop where
  lt : e < 64
  reaches : Reaches height line (oam.load (4 * e))
  count : countReaching oam height line e = 7

theorem inRange_eq_decide (height : Nat) (line : UInt16) (y : UInt8) :
    inRange height line y = decide (Reaches height line.toNat y) :=
  (Bool.decide_and _ _).symm

theorem inRange_iff {height : Nat} {line : UInt16} {y : UInt8} :
    inRange height line y = true ↔ Reaches height line.toNat y := by
  rw [inRange_eq_decide, decide_eq_true_iff]

theorem candidates_eq (oam : Memory 256) (height : Nat) (line : UInt16) :
    candidates oam height line =
      (List.range 64).filter fun i => Reaches height line.toNat (oam.load (4 * i)) := by
  simp only [candidates, inRange_eq_decide]

theorem length_candidates (oam : Memory 256) (height : Nat) (line : UInt16) :
    (candidates oam height line).length = countReaching oam height line.toNat 64 := by
  rw [candidates_eq, countReaching, Nat.count_eq_card_filter_range]
  rfl

theorem getElem?_candidates (oam : Memory 256) (height : Nat) (line : UInt16) (e : Nat) :
    (candidates oam height line)[7]? = some e ↔ IsEighth oam height line.toNat e := by
  rw [candidates_eq, getElem?_filter_range]
  exact ⟨fun h => ⟨h.1, h.2.1, h.2.2⟩, fun h => ⟨h.lt, h.reaches, h.count⟩⟩

/-! ## The diagonal -/

/-- The place of sprite memory at which the walk behind sprite `e` looks after `j` steps. -/
def diagonal (e j : Nat) : Nat := 4 * (e + 1 + j) + j % 4

section

variable {oam : Memory 256} {height : Nat} {line : UInt16} {e j : Nat}

/-- Steps that meet nothing lead on along the diagonal. -/
theorem overflowWalk_of_misses (hj : j ≤ 63 - e)
    (hmiss : ∀ i < j, ¬ Reaches height line.toNat (oam.load (diagonal e i))) :
    overflowWalk oam height line (e + 1) 0 =
      overflowWalk oam height line (e + 1 + j) (j % 4) := by
  induction j with
  | zero => rfl
  | succ j ih =>
    have hhere : ¬ inRange height line (oam.load (4 * (e + 1 + j) + j % 4)) = true :=
      fun hit => hmiss j (Nat.lt_succ_self j) (inRange_iff.mp hit)
    rw [ih (by omega) fun i hi => hmiss i (Nat.lt_succ_of_lt hi), overflowWalk,
      dif_pos (by omega), if_neg hhere, Nat.mod_add_mod, Nat.add_assoc]

/-- The walk ends where it first takes a byte for the position of a sprite. -/
theorem overflowWalk_of_reaches (hj : j < 63 - e)
    (hit : Reaches height line.toNat (oam.load (diagonal e j)))
    (hmiss : ∀ i < j, ¬ Reaches height line.toNat (oam.load (diagonal e i))) :
    overflowWalk oam height line (e + 1) 0 = (true, UInt8.ofNat (diagonal e j)) := by
  rw [overflowWalk_of_misses (Nat.le_of_lt hj) hmiss, overflowWalk, dif_pos (by omega)]
  exact if_pos (inRange_iff.mpr hit)

/-- If it meets nothing, it ends behind sprite memory. -/
theorem overflowWalk_of_none (he : e < 64)
    (hmiss : ∀ i < 63 - e, ¬ Reaches height line.toNat (oam.load (diagonal e i))) :
    overflowWalk oam height line (e + 1) 0 = (false, UInt8.ofNat ((63 - e) % 4)) := by
  have hend : e + 1 + (63 - e) = 64 := by omega
  rw [overflowWalk_of_misses (Nat.le_refl _) hmiss, hend, overflowWalk, dif_neg (by decide),
    UInt8.ofNat_add]
  exact congrArg _ (UInt8.zero_add _)

end

end Sprite

/-! ## The search -/

namespace Ppu

open Sprite

/-- What a search for the sprites of a line reports of the walk behind the eighth. -/
structure WalksDiagonal (ppu : Ppu) (line : UInt16) : Prop where
  /-- The loop over sprite memory stays within it, and within secondary memory. -/
  inBounds : Checked.searchSprites ppu line = some (ppu.searchSprites line)
  /-- Fewer than eight sprites reach the line, or one of them is the eighth. -/
  total : countReaching ppu.oam ppu.control.spriteHeight line.toNat 64 < 8 ∨
    ∃ e, IsEighth ppu.oam ppu.control.spriteHeight line.toNat e
  /-- If there are fewer, there is no walk. -/
  few : countReaching ppu.oam ppu.control.spriteHeight line.toNat 64 < 8 →
    (ppu.searchSprites line).status.overflow = ppu.status.overflow ∧
      (ppu.searchSprites line).search.stoppedAt = 0
  /-- Nor is there one behind the last sprite. -/
  last : IsEighth ppu.oam ppu.control.spriteHeight line.toNat 63 →
    (ppu.searchSprites line).status.overflow = ppu.status.overflow ∧
      (ppu.searchSprites line).search.stoppedAt = 0
  /-- The walk raises the flag if it takes any byte for the position of a sprite that reaches the
  line. -/
  overflow_iff : ∀ e, IsEighth ppu.oam ppu.control.spriteHeight line.toNat e →
    ((ppu.searchSprites line).status.overflow = true ↔
      ppu.status.overflow = true ∨
        ∃ j < 63 - e, Reaches ppu.control.spriteHeight line.toNat (ppu.oam.load (diagonal e j)))
  /-- It stops at the first such byte, -/
  stoppedAt_of_reaches : ∀ e, IsEighth ppu.oam ppu.control.spriteHeight line.toNat e →
    ∀ j < 63 - e, Reaches ppu.control.spriteHeight line.toNat (ppu.oam.load (diagonal e j)) →
    (∀ i < j, ¬ Reaches ppu.control.spriteHeight line.toNat (ppu.oam.load (diagonal e i))) →
      (ppu.searchSprites line).search.stoppedAt.toNat = diagonal e j
  /-- and if there is none, behind the last sprite. -/
  stoppedAt_of_none : ∀ e, IsEighth ppu.oam ppu.control.spriteHeight line.toNat e →
    (∀ j < 63 - e,
      ¬ Reaches ppu.control.spriteHeight line.toNat (ppu.oam.load (diagonal e j))) →
      (ppu.searchSprites line).status.overflow = ppu.status.overflow ∧
        (ppu.searchSprites line).search.stoppedAt.toNat = (63 - e) % 4

section

variable {ppu : Ppu} {line : UInt16}

theorem searchSprites_of_few
    (h : countReaching ppu.oam ppu.control.spriteHeight line.toNat 64 < 8) :
    (ppu.searchSprites line).status.overflow = ppu.status.overflow ∧
      (ppu.searchSprites line).search.stoppedAt = 0 := by
  have hnone : (candidates ppu.oam ppu.control.spriteHeight line)[7]? = none := by
    rw [List.getElem?_eq_none_iff, length_candidates]
    omega
  simp [searchSprites, hnone]

theorem searchSprites_of_isEighth {e : Nat}
    (h : IsEighth ppu.oam ppu.control.spriteHeight line.toNat e) {overflow : Bool}
    {stoppedAt : UInt8}
    (hwalk : overflowWalk ppu.oam ppu.control.spriteHeight line (e + 1) 0 = (overflow, stoppedAt)) :
    (ppu.searchSprites line).status.overflow = (ppu.status.overflow || overflow) ∧
      (ppu.searchSprites line).search.stoppedAt = stoppedAt := by
  have heighth := (getElem?_candidates ppu.oam ppu.control.spriteHeight line e).mpr h
  simp [searchSprites, heighth, hwalk]

end

theorem walksDiagonal (ppu : Ppu) (line : UInt16) : ppu.WalksDiagonal line where
  inBounds := Checked.searchSprites_eq ppu line
  total := by
    by_contra! hnone
    obtain ⟨hcount, hnone⟩ := hnone
    rw [← length_candidates] at hcount
    have hlast := List.getElem?_eq_getElem (i := 7)
      (l := candidates ppu.oam ppu.control.spriteHeight line) (by omega)
    exact hnone _ ((getElem?_candidates _ _ _ _).mp hlast)
  few := searchSprites_of_few
  last h := by
    have hwalk : overflowWalk ppu.oam ppu.control.spriteHeight line 64 0 = (false, 0) :=
      overflowWalk_of_none h.lt fun i hi => absurd hi (Nat.not_lt_zero i)
    simpa using searchSprites_of_isEighth h hwalk
  overflow_iff e h := by
    by_cases hmet : ∃ j < 63 - e,
        Reaches ppu.control.spriteHeight line.toNat (ppu.oam.load (diagonal e j))
    · obtain ⟨hlt, hit⟩ := Nat.find_spec hmet
      have hmiss : ∀ i < Nat.find hmet,
          ¬ Reaches ppu.control.spriteHeight line.toNat (ppu.oam.load (diagonal e i)) :=
        fun i hi hreaches => Nat.find_min hmet hi ⟨by omega, hreaches⟩
      obtain ⟨hflag, -⟩ :=
        searchSprites_of_isEighth h (overflowWalk_of_reaches hlt hit hmiss)
      simp [hflag, hmet]
    · have hmiss : ∀ i < 63 - e,
          ¬ Reaches ppu.control.spriteHeight line.toNat (ppu.oam.load (diagonal e i)) :=
        fun i hi hreaches => hmet ⟨i, hi, hreaches⟩
      obtain ⟨hflag, -⟩ := searchSprites_of_isEighth h (overflowWalk_of_none h.lt hmiss)
      rw [hflag, Bool.or_false, or_iff_left hmet]
  stoppedAt_of_reaches e h j hj hit hmiss := by
    obtain ⟨-, hstopped⟩ := searchSprites_of_isEighth h (overflowWalk_of_reaches hj hit hmiss)
    have hlt : diagonal e j < 256 := by
      unfold diagonal
      omega
    rw [hstopped, UInt8.toNat_ofNat', Nat.mod_eq_of_lt hlt]
  stoppedAt_of_none e h hmiss := by
    obtain ⟨hflag, hstopped⟩ := searchSprites_of_isEighth h (overflowWalk_of_none h.lt hmiss)
    refine ⟨by rw [hflag, Bool.or_false], ?_⟩
    rw [hstopped, UInt8.toNat_ofNat', Nat.mod_eq_of_lt (by omega)]

end Ppu

end Famicom
