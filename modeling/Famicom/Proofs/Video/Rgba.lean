import Mathlib.Tactic.Ring
import Famicom.Proofs.Video.Drawing

/-!
# Frames as bytes

A host takes a frame as four bytes for each pixel. The colours are those of the master palette,
darkened by the emphasis.

* `toNat_channel_apply`: emphasis takes a quarter of the channels that it leaves out.
* `toRgba?_of_lt`, `toRgba?_of_le`: a short buffer is refused and left as it is; a long one receives
  the bytes of every pixel and is the same behind them.
* `holdsAndConverts`: what a host reads and takes of a frame that it has drawn.
-/

namespace Famicom

namespace Rgb

/-- The channels of a colour, red first. -/
def channel (c : Rgb) : Fin 3 → UInt32
  | 0 => c.red
  | 1 => c.green
  | 2 => c.blue

theorem toNat_channel (c : Rgb) (i : Fin 3) :
    (c.channel i).toNat = c.toNat / 0x100 ^ (2 - i.val) % 0x100 := by
  match i with
  | 0 => simp [channel, red, UInt32.toNat_div, UInt32.toNat_mod]
  | 1 => simp [channel, green, UInt32.toNat_div, UInt32.toNat_mod]
  | 2 => simp [channel, blue, UInt32.toNat_mod]

/-- A colour has the channels of which it is made. -/
theorem channel_ofChannels {channels : Fin 3 → UInt32} (h : ∀ i, (channels i).toNat < 0x100)
    (i : Fin 3) :
    (ofChannels (channels 0) (channels 1) (channels 2)).channel i = channels i := by
  have hred := h 0
  have hgreen := h 1
  have hblue := h 2
  have hcolor : (ofChannels (channels 0) (channels 1) (channels 2)).toNat =
      0x10000 * (channels 0).toNat + 0x100 * (channels 1).toNat + (channels 2).toNat := by
    unfold ofChannels
    simp only [UInt32.toNat_add, UInt32.toNat_mul, UInt32.reduceToNat]
    omega
  apply UInt32.toNat_inj.mp
  rw [toNat_channel, hcolor]
  match i with
  | 0 => show _ / 0x10000 % 0x100 = _; omega
  | 1 => show _ / 0x100 % 0x100 = _; omega
  | 2 => show _ / 1 % 0x100 = _; omega

/-- The bytes of a colour are its channels, and one that says that it is opaque. -/
theorem toRgba_channel (c : Rgb) (i : Fin 3) :
    c.toRgba[i.val] = UInt8.ofNat (c.channel i).toNat := by
  match i with
  | 0 => rfl
  | 1 => rfl
  | 2 => rfl

end Rgb

/-! ## Emphasis -/

/-- A channel of a colour number under emphasis: three quarters of what the master palette says if
some channel is emphasised, but not this one, and the colour is in neither of the black columns. -/
def shade (color emphasis : UInt8) (i : Fin 3) : Nat :=
  let full := (paletteColor color).toNat / 0x100 ^ (2 - i.val) % 0x100
  if emphasis % 8 ≠ 0 ∧ Byte.bit emphasis i = false ∧ color.toNat % 0x10 < 0xE then 3 * full / 4
  else full

namespace Emphasis

theorem isBlack_iff (color : UInt8) : isBlack color = true ↔ 0xE ≤ color.toNat % 0x10 := by
  have hblack : isBlack color = true ↔ (color / 2 % 8).toNat = 7 := by
    unfold isBlack
    rw [beq_iff_eq, ← UInt8.toNat_inj]
    rfl
  rw [hblack, UInt8.toNat_mod, UInt8.toNat_div]
  simp only [UInt8.reduceToNat]
  omega

/-- The bits of an emphasis, by their worth. -/
theorem emphasised_iff (emphasis : UInt8) (i : Fin 3) :
    emphasis % 8 / #v[1, 2, 4][i] % 2 = 1 ↔ Byte.bit emphasis i = true := by
  revert emphasis i
  exact Byte.forall_of_fin (by decide +kernel)

theorem toNat_attenuate {c : UInt32} (h : c.toNat < 0x100) :
    (attenuate c).toNat = 3 * c.toNat / 4 := by
  unfold attenuate
  simp only [UInt32.toNat_div, UInt32.toNat_mul, UInt32.reduceToNat]
  omega

/-- Emphasis takes a quarter of the channels that it leaves out. -/
theorem toNat_channel_apply (color emphasis : UInt8) (i : Fin 3) :
    ((apply color (paletteColor color) emphasis).channel i).toNat = shade color emphasis i := by
  have hfull := (paletteColor color).toNat_channel i
  have hlt (i : Fin 3) : ((paletteColor color).channel i).toNat < 0x100 := by
    rw [Rgb.toNat_channel]
    exact Nat.mod_lt _ (by decide)
  unfold apply shade
  rw [← hfull]
  by_cases hplain : emphasis % 8 = 0 ∨ isBlack color = true
  · rw [if_pos hplain, if_neg]
    rintro ⟨hemphasis, -, hcolumn⟩
    rcases hplain with hzero | hblack
    · exact hemphasis hzero
    · have hcolumns := (isBlack_iff color).mp hblack
      omega
  · rw [if_neg hplain]
    rw [not_or, isBlack_iff, Nat.not_le] at hplain
    let channels (i : Fin 3) : UInt32 :=
      if emphasis % 8 / #v[1, 2, 4][i] % 2 = 1 then (paletteColor color).channel i
      else attenuate ((paletteColor color).channel i)
    have hchannel (i : Fin 3) : (channels i).toNat =
        if Byte.bit emphasis i = false then 3 * ((paletteColor color).channel i).toNat / 4
        else ((paletteColor color).channel i).toNat := by
      show (if _ then _ else _ : UInt32).toNat = _
      by_cases hbit : Byte.bit emphasis i = true
      · rw [if_pos ((emphasised_iff emphasis i).mpr hbit), if_neg (by simp [hbit])]
      · rw [if_neg (mt (emphasised_iff emphasis i).mp hbit), if_pos (Bool.eq_false_iff.mpr hbit),
          toNat_attenuate (hlt i)]
    have hbound (i : Fin 3) : (channels i).toNat < 0x100 := by
      have hless := hlt i
      rw [hchannel]
      split <;> omega
    show ((Rgb.ofChannels (channels 0) (channels 1) (channels 2)).channel i).toNat = _
    rw [Rgb.channel_ofChannels hbound, hchannel]
    simp only [ne_eq, hplain, not_false_eq_true, true_and, and_true]

end Emphasis

namespace Frame

/-! ## Bytes -/

/-- The bytes of a pixel as it is drawn. -/
theorem displayed_pixelWord (color emphasis : UInt8) (i : Fin 3) :
    (displayed (pixelWord color emphasis)).toRgba[i.val] =
      UInt8.ofNat (shade (color % 0x40) (emphasis % 8) i) := by
  unfold displayed
  rw [color_pixelWord, emphasis_pixelWord, Rgb.toRgba_channel, Emphasis.toNat_channel_apply]

@[simp] theorem size_writeRgba (out : Array UInt8) (i : Nat) (word : UInt16) :
    (writeRgba out i word).size = out.size := by
  simp [writeRgba]

/-- A pixel that has room in a buffer is written to its four bytes. -/
theorem getElem?_writeRgba (out : Array UInt8) {i : Nat} (word : UInt16)
    (h : 4 * i + 3 < out.size) (k : Fin 4) :
    (writeRgba out i word)[4 * i + k]? = some (displayed word).toRgba[k.val] := by
  unfold writeRgba
  simp only [Array.getElem?_setIfInBounds, Array.size_setIfInBounds]
  match k with
  | ⟨0, _⟩ => simp; omega
  | ⟨1, _⟩ => simp; omega
  | ⟨2, _⟩ => simp; omega
  | ⟨3, _⟩ => simp; omega

/-- All other bytes are left as they are. -/
theorem getElem?_writeRgba_of_ne (out : Array UInt8) {i j : Nat} (word : UInt16) (h : j / 4 ≠ i) :
    (writeRgba out i word)[j]? = out[j]? := by
  unfold writeRgba
  simp only [Array.getElem?_setIfInBounds]
  rw [if_neg (by omega), if_neg (by omega), if_neg (by omega), if_neg (by omega)]

/-- The room in the buffer is checked before any pixel is written. -/
theorem on_toRgba? (frame : Frame) (out : Array UInt8) :
    frame.toRgba?.on out =
      if out.size < 4 * 61440 then (.error .buffer, out)
      else (.ok (), Fin.foldl 61440 (fun out i => writeRgba out i (frame.words.get i)) out) := by
  let write : VideoAttempt (Array UInt8) Unit :=
    modify fun out => Fin.foldl 61440 (fun out i => writeRgba out i (frame.words.get i)) out
  have hcheck : frame.toRgba?.on out =
      (if out.size < 4 * 61440 then throw .buffer else write : VideoAttempt _ _).on out := rfl
  rw [hcheck]
  split <;> rfl

/-- A buffer without room for all pixels is left as it is. -/
theorem toRgba?_of_lt (frame : Frame) {out : Array UInt8} (h : out.size < 4 * 61440) :
    frame.toRgba?.on out = (.error .buffer, out) := by
  rw [on_toRgba?, if_pos h]

/-- A buffer with room for all pixels receives the bytes of each, and is the same behind them. -/
theorem toRgba?_of_le (frame : Frame) {out : Array UInt8} (h : 4 * 61440 ≤ out.size) :
    ∃ bytes, frame.toRgba?.on out = (.ok (), bytes) ∧ bytes.size = out.size ∧
      (∀ (i : Fin 61440) (k : Fin 4),
        bytes[4 * i.val + k]? = some (displayed (frame.words.get i)).toRgba[k.val]) ∧
      ∀ j, 4 * 61440 ≤ j → bytes[j]? = out[j]? := by
  rw [on_toRgba?, if_neg (Nat.not_lt.mpr h), Fin.foldl_eq_finRange_foldl]
  refine ⟨_, rfl, ?_⟩
  have hfold := foldl_finRange_induction (n := 61440) (a := out)
    (f := fun out i => writeRgba out i (frame.words.get i))
    (P := fun n bytes => bytes.size = out.size ∧
      (∀ (i : Fin 61440) (k : Fin 4), i.val < n →
        bytes[4 * i.val + k]? = some (displayed (frame.words.get i)).toRgba[k.val]) ∧
      ∀ j, 4 * n ≤ j → bytes[j]? = out[j]?)
    (fun n bytes hbytes => ?_) ⟨rfl, fun _ _ hi => absurd hi (Nat.not_lt_zero _), fun _ _ => rfl⟩
  · exact ⟨hfold.1, fun i k => hfold.2.1 i k i.isLt, hfold.2.2⟩
  · obtain ⟨hsize, hwritten, hbehind⟩ := hbytes
    refine ⟨(size_writeRgba ..).trans hsize, fun i k hi => ?_, fun j hj => ?_⟩
    · rcases Nat.lt_or_eq_of_le (Nat.le_of_lt_succ hi) with hbefore | hnow
      · rw [getElem?_writeRgba_of_ne _ _ (by omega)]
        exact hwritten i k hbefore
      · obtain rfl : i = n := Fin.ext hnow
        exact getElem?_writeRgba _ _ (by omega) k
    · rw [getElem?_writeRgba_of_ne _ _ (by omega)]
      exact hbehind j (by omega)

/-- Let a host draw on a new frame as it likes. Every pixel then has the colour and the emphasis
that it was given last, and a place off the screen is refused. As bytes, each pixel is the three
channels of its colour in the master palette, darkened as its emphasis says, and a fourth that says
that it is opaque, line by line from the top; a buffer that is longer is the same behind them, and
one that is shorter is refused and left as it is. -/
theorem holdsAndConverts (calls : List DrawCall) :
    let frame := black.afterAll calls
    frame.Holds (drawn calls) ∧
      ∀ out : Array UInt8,
        (out.size < 245760 → frame.toRgba?.on out = (.error .buffer, out)) ∧
        (245760 ≤ out.size → ∃ bytes, frame.toRgba?.on out = (.ok (), bytes) ∧
          bytes.size = out.size ∧
          (∀ x y : Nat, x < 256 → y < 240 →
            (∀ i : Fin 3, bytes[4 * (256 * y + x) + i]? =
              some (UInt8.ofNat (shade ((drawn calls x y).1 % 0x40) ((drawn calls x y).2 % 8) i))) ∧
            bytes[4 * (256 * y + x) + 3]? = some 0xFF) ∧
          ∀ j, 245760 ≤ j → bytes[j]? = out[j]?) := by
  intro frame
  have hword (x : Fin 256) (y : Fin 240) :
      frame.word x y = pixelWord (drawn calls x y).1 (drawn calls x y).2 := word_afterAll calls x y
  refine ⟨holds_of_word hword, fun out => ⟨frame.toRgba?_of_lt, fun hlong => ?_⟩⟩
  obtain ⟨bytes, hbytes, hsize, hpixels, hbehind⟩ := frame.toRgba?_of_le hlong
  refine ⟨bytes, hbytes, hsize, fun x y hx hy => ⟨fun i => ?_, ?_⟩, hbehind⟩
  · have hpixel := hpixels (position ⟨x, hx⟩ ⟨y, hy⟩) i.castSucc
    rw [show frame.words.get _ = frame.word ⟨x, hx⟩ ⟨y, hy⟩ from rfl, hword] at hpixel
    exact hpixel.trans (congrArg some (displayed_pixelWord _ _ i))
  · exact hpixels (position ⟨x, hx⟩ ⟨y, hy⟩) 3

end Frame

end Famicom
