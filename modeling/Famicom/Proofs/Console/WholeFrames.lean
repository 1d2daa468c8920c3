import Mathlib.Algebra.Order.Floor.Ring
import Mathlib.Data.Rat.Floor
import Mathlib.Tactic.Linarith
import Mathlib.Tactic.Ring
import Famicom.Console.Pacer

/-!
# Whole frames of lag

How many frames the pacer takes off a lag. Times are exact here wherever they are numbers; the
threshold of a pacer may be an infinity, or no number at all.

* `framesIn_le_iff`: the number that is to be taken off, by the remainders that it leaves.
* `framesIn_lt_size_iff`: it fits in 32 bits up to 2^32 frames of lag.
* `wholeFrames_of_lt`, `wholeFrames_of_le`: if it fits, all of them are taken off and counted; if
  not, the count fails after 2^32 frames.
-/

namespace Famicom

/-- A rational number, an infinity, or what is not a number. -/
inductive ExtendedRat where
  | finite (q : ℚ)
  | infinite (negative : Bool)
  | undefined
  deriving DecidableEq

namespace ExtendedRat

/-- Whether one comes before the other. What is not a number comes neither before nor after
anything. -/
def before : ExtendedRat → ExtendedRat → Bool
  | finite a, finite b => a < b
  | infinite true, finite _ | finite _, infinite false | infinite true, infinite false => true
  | _, _ => false

instance : LT ExtendedRat := ⟨fun a b => a.before b = true⟩

instance (a b : ExtendedRat) : Decidable (a < b) := inferInstanceAs (Decidable (_ = true))

@[simp] theorem finite_lt_finite {a b : ℚ} : finite a < finite b ↔ a < b := decide_eq_true_iff

end ExtendedRat

/-- Times that may stand for numbers, and then are computed with exactly. What number a literal
stands for is left open, so that a frame may last any time. -/
structure Time.FinitelyExact {T : Type} [Time T] (reading : T → ExtendedRat) : Prop where
  zero : reading Time.zero = .finite 0
  add {a b : T} {p q : ℚ} : reading a = .finite p → reading b = .finite q →
    reading (a + b) = .finite (p + q)
  sub {a b : T} {p q : ℚ} : reading a = .finite p → reading b = .finite q →
    reading (a - b) = .finite (p - q)
  neg {a : T} {p : ℚ} : reading a = .finite p → reading (-a) = .finite (-p)
  lt (a b : T) : Time.lt a b = true ↔ reading a < reading b

namespace Pacer

/-! ## The number of frames -/

section

variable {frame lag : ℚ}

/-- The least number of frames whose removal leaves no more than one frame of a lag. -/
def framesIn (frame lag : ℚ) : ℕ := ⌈lag / frame - 1⌉₊

theorem framesIn_le_iff (hpos : 0 < frame) (n : ℕ) :
    framesIn frame lag ≤ n ↔ lag - n * frame ≤ frame := by
  rw [framesIn, Nat.ceil_le, sub_le_iff_le_add, div_le_iff₀ hpos, sub_le_iff_le_add]
  constructor <;> intro h <;> linarith

theorem isLeast_framesIn (hpos : 0 < frame) :
    IsLeast {n : ℕ | lag - n * frame ≤ frame} (framesIn frame lag) := by
  constructor
  · exact (framesIn_le_iff hpos _).mp le_rfl
  · intro n hn
    exact (framesIn_le_iff hpos n).mpr hn

/-- A lag of no more than a frame is left as it is. -/
theorem framesIn_of_le (hpos : 0 < frame) (h : lag ≤ frame) : framesIn frame lag = 0 := by
  rw [← Nat.le_zero, framesIn_le_iff hpos]
  simpa using h

/-- A longer lag loses a frame, and then what the rest of it loses. -/
theorem framesIn_of_lt (hpos : 0 < frame) (h : frame < lag) :
    framesIn frame lag = framesIn frame (lag - frame) + 1 := by
  apply le_antisymm
  · have hrest : lag - frame - framesIn frame (lag - frame) * frame ≤ frame :=
      (framesIn_le_iff hpos _).mp le_rfl
    rw [framesIn_le_iff hpos]
    push_cast
    linarith
  · have hall : lag - framesIn frame lag * frame ≤ frame := (framesIn_le_iff hpos _).mp le_rfl
    obtain ⟨n, hn⟩ : ∃ n, framesIn frame lag = n + 1 := by
      cases hcount : framesIn frame lag with
      | zero =>
        rw [hcount] at hall
        push_cast at hall
        linarith
      | succ n => exact ⟨n, rfl⟩
    rw [hn] at hall ⊢
    push_cast at hall
    rw [Nat.add_le_add_iff_right, framesIn_le_iff hpos]
    linarith

/-- The number fits in 32 bits up to 2^32 frames of lag. -/
theorem framesIn_lt_size_iff (hpos : 0 < frame) (lag : ℚ) :
    framesIn frame lag < UInt32.size ↔ lag ≤ UInt32.size * frame := by
  have hsize : framesIn frame lag < UInt32.size ↔ framesIn frame lag ≤ UInt32.size - 1 :=
    Nat.lt_iff_le_pred (by decide)
  rw [hsize, framesIn_le_iff hpos, sub_le_iff_le_add]
  have hpred : ((UInt32.size - 1 : ℕ) : ℚ) = UInt32.size - 1 := by norm_num
  rw [hpred]
  constructor <;> intro h <;> linarith

end

/-! ## Taking them off -/

variable {T : Type} [Time T] {reading : T → ExtendedRat} {frame size : ℚ} {lag : T}

/-- The comparison by which the loop goes on. -/
theorem lt_iff_of_reading (exact : Time.FinitelyExact reading)
    (hframe : reading frameMs = .finite frame) (hlag : reading lag = .finite size) :
    Time.lt frameMs lag = true ↔ frame < size := by
  rw [exact.lt, hframe, hlag, ExtendedRat.finite_lt_finite]

/-- Frames are taken off one by one, and all of them are counted if the count holds them. -/
theorem takeFrames_of_lt (exact : Time.FinitelyExact reading)
    (hframe : reading frameMs = .finite frame) (hpos : 0 < frame)
    (hlag : reading lag = .finite size) (count : UInt32)
    (hroom : count.toNat + framesIn frame size < UInt32.size) :
    ∃ rest, takeFrames lag count = (.ok (count + UInt32.ofNat (framesIn frame size)), rest) ∧
      reading rest = .finite (size - framesIn frame size * frame) := by
  fun_induction takeFrames lag count generalizing size with
  | case1 lag hlong =>
    have hcount := framesIn_of_lt hpos ((lt_iff_of_reading exact hframe hlag).mp hlong)
    have hfull : (0xFFFFFFFF : UInt32).toNat + 1 = UInt32.size := rfl
    omega
  | case2 lag count hlong hne ih =>
    have hcount := framesIn_of_lt hpos ((lt_iff_of_reading exact hframe hlag).mp hlong)
    have hnext := toNat_succ hne
    obtain ⟨rest, htake, hrest⟩ := ih (exact.sub hlag hframe) (by omega)
    refine ⟨rest, ?_, ?_⟩
    · rw [htake, hcount, UInt32.ofNat_add, UInt32.add_assoc, UInt32.add_comm 1]
      rfl
    · rw [hrest, hcount]
      push_cast
      congr 1
      ring
  | case3 lag count hshort =>
    have hle := not_lt.mp (mt (lt_iff_of_reading exact hframe hlag).mpr hshort)
    rw [framesIn_of_le hpos hle]
    exact ⟨lag, by simp, by simpa using hlag⟩

/-- If the count does not hold them, it fails at the first frame too many, which has been taken off
by then. -/
theorem takeFrames_of_le (exact : Time.FinitelyExact reading)
    (hframe : reading frameMs = .finite frame) (hpos : 0 < frame)
    (hlag : reading lag = .finite size) (count : UInt32)
    (hroom : UInt32.size ≤ count.toNat + framesIn frame size) :
    ∃ rest, takeFrames lag count = (.error .overflow, rest) ∧
      reading rest = .finite (size - (UInt32.size - count.toNat) * frame) := by
  fun_induction takeFrames lag count generalizing size with
  | case1 lag hlong =>
    refine ⟨lag - frameMs, rfl, (exact.sub hlag hframe).trans ?_⟩
    have hfull : ((0xFFFFFFFF : UInt32).toNat : ℚ) = UInt32.size - 1 := by
      rw [show (0xFFFFFFFF : UInt32).toNat = UInt32.size - 1 from rfl]
      norm_num
    rw [hfull]
    congr 1
    ring
  | case2 lag count hlong hne ih =>
    have hcount := framesIn_of_lt hpos ((lt_iff_of_reading exact hframe hlag).mp hlong)
    have hnext := toNat_succ hne
    obtain ⟨rest, htake, hrest⟩ := ih (exact.sub hlag hframe) (by omega)
    refine ⟨rest, htake, hrest.trans ?_⟩
    rw [hnext]
    push_cast
    congr 1
    ring
  | case3 lag count hshort =>
    have hle := not_lt.mp (mt (lt_iff_of_reading exact hframe hlag).mpr hshort)
    have hlt := count.toNat_lt
    rw [framesIn_of_le hpos hle] at hroom
    exact absurd hroom (Nat.not_le.mpr hlt)

/-- The pacer takes off a lag the least number of frames that leaves no more than one, and counts
them, if 32 bits hold the count. -/
theorem wholeFrames_of_lt (exact : Time.FinitelyExact reading)
    (hframe : reading frameMs = .finite frame) (hpos : 0 < frame)
    (hlag : reading lag = .finite size) (hfits : framesIn frame size < UInt32.size) :
    ∃ rest, wholeFrames lag = (.ok (UInt32.ofNat (framesIn frame size)), rest) ∧
      reading rest = .finite (size - framesIn frame size * frame) := by
  obtain ⟨rest, htake, hread⟩ := takeFrames_of_lt exact hframe hpos hlag 0 (by simpa)
  exact ⟨rest, by rw [wholeFrames, htake, UInt32.zero_add], hread⟩

/-- If they do not hold it, the count fails, and 2^32 frames are off the lag. -/
theorem wholeFrames_of_le (exact : Time.FinitelyExact reading)
    (hframe : reading frameMs = .finite frame) (hpos : 0 < frame)
    (hlag : reading lag = .finite size) (hmore : UInt32.size ≤ framesIn frame size) :
    ∃ rest, wholeFrames lag = (.error .overflow, rest) ∧
      reading rest = .finite (size - UInt32.size * frame) := by
  obtain ⟨rest, htake, hread⟩ := takeFrames_of_le exact hframe hpos hlag 0 (by simpa)
  exact ⟨rest, htake, by simpa using hread⟩

end Pacer

end Famicom
