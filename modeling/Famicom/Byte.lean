/-!
# Bytes and words

A byte is read as eight bits and a word as two bytes. Registers whose bits have a meaning of
their own are records of Booleans; `Byte.ofBits` and `Byte.bit` lead to the byte that a program
sees and back, and nothing is lost either way:

* `Byte.ofBits_bit`: a byte is made of its own bits;
* `Word.ofBytes_low_high`, `Word.low_ofBytes`, `Word.high_ofBytes`: a word is its two bytes;
* `Word.toNat_ofBytes`, `Word.toNat_low`, `Word.toNat_high`: the same in numbers.
-/

namespace Famicom

namespace Byte

/-- Bit `i` of a byte, counted from the least significant. -/
@[inline] def bit (b : UInt8) (i : Nat) : Bool := b.toNat.testBit i

/-- The byte with the given bits, least significant first. -/
@[inline] def ofBits (b0 b1 b2 b3 b4 b5 b6 b7 : Bool) : UInt8 :=
  b0.toUInt8 + 2 * b1.toUInt8 + 4 * b2.toUInt8 + 8 * b3.toUInt8 + 16 * b4.toUInt8 +
    32 * b5.toUInt8 + 64 * b6.toUInt8 + 128 * b7.toUInt8

/-- A property of all bytes holds once it holds of the bytes numbered 0 to 255. -/
theorem forall_of_fin {P : UInt8 → Prop} (h : ∀ n : Fin 256, P (UInt8.ofFin n)) (b : UInt8) :
    P b :=
  h b.toFin

theorem ofBits_bit (b : UInt8) :
    ofBits (bit b 0) (bit b 1) (bit b 2) (bit b 3) (bit b 4) (bit b 5) (bit b 6) (bit b 7) = b := by
  revert b
  exact forall_of_fin (by decide +kernel)

end Byte

namespace Word

/-- The word with the given low and high bytes. -/
@[inline] def ofBytes (low high : UInt8) : UInt16 := 0x100 * high.toUInt16 + low.toUInt16

/-- The low byte of a word. -/
@[inline] def low (w : UInt16) : UInt8 := w.toUInt8

/-- The high byte of a word. -/
@[inline] def high (w : UInt16) : UInt8 := (w / 0x100).toUInt8

theorem toNat_ofBytes (l h : UInt8) : (ofBytes l h).toNat = l.toNat + 0x100 * h.toNat := by
  have hlow := l.toNat_lt
  have hhigh := h.toNat_lt
  simp only [ofBytes, UInt16.toNat_add, UInt16.toNat_mul, UInt8.toNat_toUInt16,
    UInt16.reduceToNat]
  omega

theorem toNat_low (w : UInt16) : (low w).toNat = w.toNat % 0x100 := by
  simp [low]

theorem toNat_high (w : UInt16) : (high w).toNat = w.toNat / 0x100 := by
  have hlt := w.toNat_lt
  simp only [high, UInt16.toNat_toUInt8, UInt16.toNat_div, UInt16.reduceToNat]
  omega

@[simp] theorem low_ofBytes (l h : UInt8) : low (ofBytes l h) = l := by
  have hlow := l.toNat_lt
  apply UInt8.toNat_inj.mp
  rw [toNat_low, toNat_ofBytes]
  omega

@[simp] theorem high_ofBytes (l h : UInt8) : high (ofBytes l h) = h := by
  have hlow := l.toNat_lt
  apply UInt8.toNat_inj.mp
  rw [toNat_high, toNat_ofBytes]
  omega

@[simp] theorem ofBytes_low_high (w : UInt16) : ofBytes (low w) (high w) = w := by
  apply UInt16.toNat_inj.mp
  rw [toNat_ofBytes, toNat_low, toNat_high]
  omega

end Word

end Famicom
