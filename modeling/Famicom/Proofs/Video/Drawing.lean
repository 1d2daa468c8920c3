import Famicom.Proofs.Ppu.WellFormed

/-!
# Drawing and reading pixels

What a host may do to a frame, in any order, and what it then finds in it.

* `locate?_of_lt`, `locate?_of_not_lt`: a column and a line are refused unless they are on the
  screen.
* `word_after`: a call changes the pixels that it draws, and no others.
* `word_afterAll`: so every pixel is as it was drawn last.
* `holds_of_word`: what a host reads is what the words say.
-/

namespace Famicom

/-- A call that draws. -/
inductive DrawCall where
  | setPixel (x y : Nat) (color emphasis : UInt8)
  | clear (color : UInt8)
  deriving DecidableEq, Repr

/-- The colour and the emphasis that a call gives to a pixel of the screen, if it draws it. -/
def DrawCall.draws? (x y : Nat) : DrawCall → Option (UInt8 × UInt8)
  | .setPixel x' y' color emphasis => if x' = x ∧ y' = y then some (color, emphasis) else none
  | .clear color => some (color, 0)

/-- The colour and the emphasis that were last given to a pixel of the screen; before all calls, it
is black. -/
def drawn (calls : List DrawCall) (x y : Nat) : UInt8 × UInt8 :=
  calls.foldl (fun last call => (call.draws? x y).getD last) (0x0F, 0)

/-- What is wrong with a column and a line that are not both on the screen. -/
def offScreen (x y : Nat) : VideoError := if x < 256 then .line y else .column x

namespace Frame

/-- What a call does to a frame. -/
def call? : DrawCall → VideoAttempt Frame Unit
  | .setPixel x y color emphasis => setPixel? x y color emphasis
  | .clear color => set (uniform color)

/-- The frame that a call leaves, refused or not. -/
def after (frame : Frame) (call : DrawCall) : Frame := ((call? call).on frame).2

/-- The frame after some calls, one after the other. -/
def afterAll (frame : Frame) (calls : List DrawCall) : Frame := calls.foldl after frame

/-- Every pixel of a frame has the colour and the emphasis that are given, of which six bits and
three count, and can be drawn. A place that is not on the screen is refused, whatever is asked of
it, and an attempt to draw there leaves the frame as it is. -/
structure Holds (frame : Frame) (pixel : Nat → Nat → UInt8 × UInt8) : Prop where
  size : frame.words.toArray.size = 256 * 240
  lt : ∀ word ∈ frame.words.toArray, word < 0x200
  color? : ∀ x y, x < 256 → y < 240 → frame.color? x y = .ok ((pixel x y).1 % 0x40)
  emphasis? : ∀ x y, x < 256 → y < 240 → frame.emphasis? x y = .ok ((pixel x y).2 % 8)
  setPixel? : ∀ x y, x < 256 → y < 240 → ∀ color emphasis,
    ((setPixel? x y color emphasis).on frame).1 = .ok ()
  refuses : ∀ x y, ¬ (x < 256 ∧ y < 240) →
    frame.color? x y = .error (offScreen x y) ∧ frame.emphasis? x y = .error (offScreen x y) ∧
      ∀ color emphasis,
        (Frame.setPixel? x y color emphasis).on frame = (.error (offScreen x y), frame)

/-! ## Places -/

theorem locate?_of_lt {x y : Nat} (hx : x < 256) (hy : y < 240) :
    locate? x y = .ok (⟨x, hx⟩, ⟨y, hy⟩) := by
  unfold locate?
  rw [dif_pos hx, dif_pos hy]

theorem locate?_of_not_lt {x y : Nat} (h : ¬ (x < 256 ∧ y < 240)) :
    locate? x y = .error (offScreen x y) := by
  unfold locate? offScreen
  by_cases hx : x < 256
  · rw [dif_pos hx, if_pos hx, dif_neg fun hy => h ⟨hx, hy⟩]
  · rw [dif_neg hx, if_neg hx]

/-- A pixel off the screen is refused before anything is drawn. -/
theorem setPixel?_of_not_lt (frame : Frame) {x y : Nat} (h : ¬ (x < 256 ∧ y < 240))
    (color emphasis : UInt8) :
    (setPixel? x y color emphasis).on frame = (.error (offScreen x y), frame) := by
  unfold setPixel?
  rw [locate?_of_not_lt h]
  rfl

/-- A pixel on the screen is drawn. -/
theorem setPixel?_of_lt (frame : Frame) {x y : Nat} (hx : x < 256) (hy : y < 240)
    (color emphasis : UInt8) :
    (setPixel? x y color emphasis).on frame =
      (.ok (), frame.setPixel ⟨x, hx⟩ ⟨y, hy⟩ color emphasis) := by
  unfold setPixel?
  rw [locate?_of_lt hx hy]
  rfl

/-! ## Words -/

theorem toNat_pixelWord (color emphasis : UInt8) :
    (pixelWord color emphasis).toNat = 0x40 * (emphasis.toNat % 8) + color.toNat % 0x40 := by
  rw [pixelWord]
  simp only [UInt16.toNat_add, UInt16.toNat_mul, UInt8.toNat_toUInt16, UInt8.toNat_mod,
    UInt16.reduceToNat, UInt8.reduceToNat]
  omega

/-- The colour in a word. -/
theorem color_pixelWord (color emphasis : UInt8) :
    (pixelWord color emphasis % 0x40).toUInt8 = color % 0x40 := by
  apply UInt8.toNat_inj.mp
  rw [UInt16.toNat_toUInt8, UInt16.toNat_mod, toNat_pixelWord, UInt8.toNat_mod]
  simp only [UInt16.reduceToNat, UInt8.reduceToNat]
  omega

/-- The emphasis in a word. -/
theorem emphasis_pixelWord (color emphasis : UInt8) :
    (pixelWord color emphasis / 0x40).toUInt8 = emphasis % 8 := by
  apply UInt8.toNat_inj.mp
  rw [UInt16.toNat_toUInt8, UInt16.toNat_div, toNat_pixelWord, UInt8.toNat_mod]
  simp only [UInt16.reduceToNat, UInt8.reduceToNat]
  omega

theorem word_uniform (color : UInt8) (x : Fin 256) (y : Fin 240) :
    (uniform color).word x y = pixelWord color 0 :=
  Vector.getElem_replicate (position x y).isLt

/-- A call changes the word of a pixel that it draws, and of no other. -/
theorem word_after (frame : Frame) (call : DrawCall) (x : Fin 256) (y : Fin 240) :
    (frame.after call).word x y =
      ((call.draws? x y).map fun (color, emphasis) => pixelWord color emphasis).getD
        (frame.word x y) := by
  cases call with
  | clear color => exact word_uniform color x y
  | setPixel x' y' color emphasis =>
    rw [DrawCall.draws?]
    by_cases hplace : x' < 256 ∧ y' < 240
    · obtain ⟨hx, hy⟩ := hplace
      have hsame : x = ⟨x', hx⟩ ∧ y = ⟨y', hy⟩ ↔ x' = x ∧ y' = y := by
        rw [Fin.ext_iff, Fin.ext_iff]
        exact and_congr eq_comm eq_comm
      rw [after, call?, frame.setPixel?_of_lt hx hy, word_setPixel]
      simp only [hsame]
      split <;> rfl
    · have hother : ¬ (x' = x ∧ y' = y) := by
        rintro ⟨rfl, rfl⟩
        exact hplace ⟨x.isLt, y.isLt⟩
      rw [after, call?, frame.setPixel?_of_not_lt hplace, if_neg hother]
      rfl

/-- The word of a pixel is the one that was drawn last. -/
theorem word_afterAll (calls : List DrawCall) (x : Fin 256) (y : Fin 240) :
    (black.afterAll calls).word x y = pixelWord (drawn calls x y).1 (drawn calls x y).2 := by
  unfold afterAll drawn
  have hrun (frame : Frame) (last : UInt8 × UInt8) (h : frame.word x y = pixelWord last.1 last.2) :
      (calls.foldl after frame).word x y =
        pixelWord (calls.foldl (fun last call => (call.draws? x y).getD last) last).1
          (calls.foldl (fun last call => (call.draws? x y).getD last) last).2 := by
    induction calls generalizing frame last with
    | nil => exact h
    | cons call calls ih =>
      refine ih (frame.after call) ((call.draws? x y).getD last) ?_
      rw [word_after, h]
      cases call.draws? x y <;> rfl
  exact hrun black (0x0F, 0) (word_uniform 0x0F x y)

/-- A frame holds what its words say. -/
theorem holds_of_word {frame : Frame} {pixel : Nat → Nat → UInt8 × UInt8}
    (h : ∀ (x : Fin 256) (y : Fin 240), frame.word x y = pixelWord (pixel x y).1 (pixel x y).2) :
    frame.Holds pixel where
  size := frame.words.size_toArray
  lt word hword := by
    obtain ⟨i, hi, rfl⟩ := Array.mem_iff_getElem.mp hword
    rw [Vector.size_toArray] at hi
    have hplace := h ⟨i % 256, by omega⟩ ⟨i / 256, by omega⟩
    have hposition : position ⟨i % 256, by omega⟩ ⟨i / 256, by omega⟩ = ⟨i, hi⟩ :=
      Fin.ext (Nat.div_add_mod i 256)
    unfold word at hplace
    rw [hposition] at hplace
    show frame.words.get ⟨i, hi⟩ < 0x200
    rw [hplace]
    exact pixelWord_lt _ _
  color? x y hx hy := by
    unfold Frame.color?
    rw [locate?_of_lt hx hy]
    show Except.ok (frame.word ⟨x, hx⟩ ⟨y, hy⟩ % 0x40).toUInt8 = _
    rw [h, color_pixelWord]
  emphasis? x y hx hy := by
    unfold Frame.emphasis?
    rw [locate?_of_lt hx hy]
    show Except.ok (frame.word ⟨x, hx⟩ ⟨y, hy⟩ / 0x40).toUInt8 = _
    rw [h, emphasis_pixelWord]
  setPixel? x y hx hy color emphasis :=
    congrArg Prod.fst (frame.setPixel?_of_lt hx hy color emphasis)
  refuses x y hplace := by
    have hcolor : frame.color? x y = .error (offScreen x y) := by
      unfold Frame.color?
      rw [locate?_of_not_lt hplace]
      rfl
    have hemphasis : frame.emphasis? x y = .error (offScreen x y) := by
      unfold Frame.emphasis?
      rw [locate?_of_not_lt hplace]
      rfl
    exact ⟨hcolor, hemphasis, frame.setPixel?_of_not_lt hplace⟩

end Frame

end Famicom
