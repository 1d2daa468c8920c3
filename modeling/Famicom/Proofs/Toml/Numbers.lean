import Famicom.Toml.Section
import Mathlib.Data.List.Basic
import Mathlib.Data.List.TakeWhile
import Mathlib.Tactic.Ring

/-!
# Numbers in a text

A number is written so that reading its digits gives the number back.

* `Decimal.isNormal_normal`: a normal decimal is its own normal form.
* `Decimal.positional_spec`: positional notation has digits on both sides of a point, and they are
  those of the decimal.
* `Scalar.ofWord?_integerText`, `Scalar.ofWord?_realText`: what is written for a whole number of at
  most 128 bits, and for a real number within range, is read as the number.
-/

namespace Famicom

namespace Decimal

/-! ## Normal decimals -/

/-- Whether a decimal has no trailing zeros, and the exponent zero if it is zero. -/
def IsNormal (d : Decimal) : Prop := normal d.negative d.digits d.exponent = d

instance (d : Decimal) : Decidable d.IsNormal := inferInstanceAs (Decidable (_ = d))

theorem trim_mul_ten {digits : Nat} (h : digits ≠ 0) (exponent : Int) :
    trim (digits * 10) (exponent - 1) = trim digits exponent := by
  have hzero : digits * 10 ≠ 0 ∧ digits * 10 % 10 = 0 := by omega
  have hdigits : digits * 10 / 10 = digits := by omega
  have hexponent : exponent - 1 + 1 = exponent := by omega
  rw [trim, dif_pos hzero, hdigits, hexponent]

theorem normal_mul_ten (negative : Bool) (digits : Nat) (exponent : Int) :
    normal negative (digits * 10) (exponent - 1) = normal negative digits exponent := by
  by_cases h : digits = 0
  · subst h
    rfl
  · have hten : digits * 10 ≠ 0 := by omega
    unfold normal
    rw [if_neg h, if_neg hten, trim_mul_ten h]

/-- Zeros behind the digits make no difference. -/
theorem normal_mul_pow (negative : Bool) (digits k : Nat) (exponent : Int) :
    normal negative (digits * 10 ^ k) (exponent - k) = normal negative digits exponent := by
  induction k with
  | zero => simp
  | succ k ih =>
    have hdigits : digits * 10 ^ (k + 1) = digits * 10 ^ k * 10 := by ring
    have hexponent : exponent - (k + 1 : Nat) = exponent - k - 1 := by omega
    rw [hdigits, hexponent, normal_mul_ten, ih]

theorem trim_fst_ne_zero {digits : Nat} (h : digits ≠ 0) (exponent : Int) :
    (trim digits exponent).1 ≠ 0 := by
  fun_induction trim digits exponent with
  | case1 digits exponent hzero ih => exact ih (by omega)
  | case2 digits exponent hdone => exact h

theorem trim_trim (digits : Nat) (exponent : Int) :
    trim (trim digits exponent).1 (trim digits exponent).2 = trim digits exponent := by
  fun_induction trim digits exponent with
  | case1 digits exponent hzero ih => exact ih
  | case2 digits exponent hdone => rw [trim, dif_neg hdone]

/-- A normal decimal is its own normal form. -/
theorem isNormal_normal (negative : Bool) (digits : Nat) (exponent : Int) :
    (normal negative digits exponent).IsNormal := by
  by_cases h : digits = 0
  · subst h
    rfl
  · have htrim := trim_fst_ne_zero h exponent
    unfold IsNormal
    simp only [normal, if_neg h, if_neg htrim, trim_trim]

theorem IsNormal.exponent_eq_zero {d : Decimal} (h : d.IsNormal) (hdigits : d.digits = 0) :
    d.exponent = 0 := by
  have hexponent := congrArg exponent h
  rw [normal, if_pos hdigits] at hexponent
  exact hexponent.symm

/-! ## Digits -/

theorem isDigit_digitsOf {n : Nat} : ∀ c ∈ digitsOf n, c.isDigit := fun _ hc =>
  Nat.isDigit_of_mem_toDigits (by decide) (by decide) hc

theorem digitsOf_ne_nil {n : Nat} : digitsOf n ≠ [] := Nat.toDigits_ne_nil

theorem ofDigitChars_digitsOf (n : Nat) : Nat.ofDigitChars 10 (digitsOf n) 0 = n :=
  Nat.ofDigitChars_ten_toDigits

/-- Only zero begins with a zero. -/
theorem head?_digitsOf {n : Nat} (h : n ≠ 0) : (digitsOf n).head? ≠ some '0' := by
  induction n using Nat.strongRecOn with
  | ind n ih =>
    by_cases hn : n < 10
    · have hdigit : ∀ n < 10, n ≠ 0 → n.digitChar ≠ '0' := by decide
      simpa [digitsOf, Nat.toDigits_of_lt_base hn] using hdigit n hn h
    · have hrest := ih (n / 10) (by omega) (by omega)
      have hdigits : digitsOf n = digitsOf (n / 10) ++ [(n % 10).digitChar] :=
        Nat.toDigits_of_base_le (by decide) (by omega)
      rw [hdigits, List.head?_append_of_ne_nil _ digitsOf_ne_nil]
      exact hrest

/-- Digits on both sides of a point, and no zero before others in front of it. -/
structure HasPoint (whole fraction : List Char) : Prop where
  isDigit_whole : ∀ c ∈ whole, c.isDigit
  isDigit_fraction : ∀ c ∈ fraction, c.isDigit
  whole_ne_nil : whole ≠ []
  fraction_ne_nil : fraction ≠ []
  head?_whole : whole.head? = some '0' → whole.length = 1

/-- A digit, and digits and points behind it. -/
structure IsNumeral (unsigned : List Char) : Prop where
  ne_nil : unsigned ≠ []
  isDigit_head : ∀ c ∈ unsigned.head?, c.isDigit
  mem : ∀ c ∈ unsigned, c.isDigit ∨ c = '.'

theorem isNumeral_digitsOf (n : Nat) : IsNumeral (digitsOf n) := by
  refine ⟨digitsOf_ne_nil, ?_, ?_⟩
  · exact fun c hc => isDigit_digitsOf c (List.mem_of_mem_head? hc)
  · exact fun c hc => .inl (isDigit_digitsOf c hc)

theorem HasPoint.isNumeral {whole fraction : List Char} (h : HasPoint whole fraction) :
    IsNumeral (whole ++ '.' :: fraction) := by
  refine ⟨by simp, ?_, ?_⟩
  · rw [List.head?_append_of_ne_nil _ h.whole_ne_nil]
    exact fun c hc => h.isDigit_whole c (List.mem_of_mem_head? hc)
  · intro c hc
    rcases List.mem_append.mp hc with hwhole | hbehind
    · exact .inl (h.isDigit_whole c hwhole)
    · rcases List.mem_cons.mp hbehind with hpoint | hfraction
      · exact .inr hpoint
      · exact .inl (h.isDigit_fraction c hfraction)

/-- A minus sign in front of a negative number. -/
def signed (negative : Bool) (unsigned : List Char) : List Char :=
  if negative then '-' :: unsigned else unsigned

theorem signed_ne_nil {negative : Bool} {unsigned : List Char} (h : unsigned ≠ []) :
    signed negative unsigned ≠ [] := by
  cases negative with
  | true => exact List.cons_ne_nil _ _
  | false => exact h

theorem mem_signed {negative : Bool} {unsigned : List Char} {c : Char}
    (h : c ∈ signed negative unsigned) : c = '-' ∨ c ∈ unsigned := by
  cases negative with
  | true => exact List.mem_cons.mp h
  | false => exact .inr h

/-- The digits of a whole number keep one zero behind the point. -/
theorem hasPoint_replicate {digits : Nat} {zeros : Nat} (h : digits = 0 → zeros = 0) :
    HasPoint (digitsOf digits ++ List.replicate zeros '0') ['0'] := by
  refine ⟨?_, List.all_eq_true.mp rfl, by simp [digitsOf_ne_nil], by decide, ?_⟩
  · intro c hc
    rcases List.mem_append.mp hc with hdigit | hzero
    · exact isDigit_digitsOf c hdigit
    · rw [List.eq_of_mem_replicate hzero]
      decide
  · rw [List.head?_append_of_ne_nil _ digitsOf_ne_nil]
    intro hhead
    have hdigits : digits = 0 := by
      by_contra hne
      exact head?_digitsOf hne hhead
    rw [h hdigits, hdigits]
    rfl

/-- The point may stand before all digits, behind a zero. -/
theorem pointed_spec (digits : Nat) {places : Nat} (h : 0 < places) :
    ∃ whole fraction, pointed (digitsOf digits) places = whole ++ '.' :: fraction ∧
      HasPoint whole fraction ∧ fraction.length = places ∧
      Nat.ofDigitChars 10 (whole ++ fraction) 0 = digits := by
  let padded := List.replicate (places + 1 - (digitsOf digits).length) '0' ++ digitsOf digits
  have hlength : padded.length = max (places + 1) (digitsOf digits).length := by
    simp only [padded, List.length_append, List.length_replicate]
    omega
  have hpadded : ∀ c ∈ padded, c.isDigit := by
    intro c hc
    rcases List.mem_append.mp hc with hzero | hdigit
    · rw [List.eq_of_mem_replicate hzero]
      decide
    · exact isDigit_digitsOf c hdigit
  refine ⟨padded.take (padded.length - places), padded.drop (padded.length - places), rfl, ?_, ?_,
    ?_⟩
  · refine ⟨?_, ?_, ?_, ?_, ?_⟩
    · exact fun c hc => hpadded c (List.mem_of_mem_take hc)
    · exact fun c hc => hpadded c (List.mem_of_mem_drop hc)
    · rw [← List.length_pos_iff, List.length_take]
      omega
    · rw [← List.length_pos_iff, List.length_drop]
      omega
    · intro hhead
      rw [List.length_take]
      by_cases hshort : (digitsOf digits).length ≤ places + 1
      · omega
      · -- The point stands among the digits, so they are not padded.
        have hzeros : padded = digitsOf digits := by
          have hnone : places + 1 - (digitsOf digits).length = 0 := by omega
          simp only [padded, hnone, List.replicate_zero, List.nil_append]
        have hdigits : digits ≠ 0 := by
          rintro rfl
          simp [digitsOf] at hshort
        rw [List.head?_take, if_neg (by omega), hzeros] at hhead
        exact absurd hhead (head?_digitsOf hdigits)
  · rw [List.length_drop]
    omega
  · rw [List.take_append_drop, Nat.ofDigitChars_append, Nat.ofDigitChars_replicate_zero,
      Nat.mul_zero, ofDigitChars_digitsOf]

/-- Positional notation has digits on both sides of a point, and they are those of the decimal. -/
theorem positional_spec {d : Decimal} (h : d.IsNormal) :
    ∃ whole fraction, d.positional = signed d.negative (whole ++ '.' :: fraction) ∧
      HasPoint whole fraction ∧
      normal d.negative (Nat.ofDigitChars 10 (whole ++ fraction) 0) (0 - fraction.length) = d := by
  by_cases hexponent : 0 ≤ d.exponent
  · have hzeros : d.digits = 0 → d.exponent.toNat = 0 := by
      intro hdigits
      rw [h.exponent_eq_zero hdigits]
      rfl
    have hnumber : Nat.ofDigitChars 10
        (digitsOf d.digits ++ List.replicate d.exponent.toNat '0' ++ ['0']) 0 =
        d.digits * 10 ^ (d.exponent.toNat + 1) := by
      rw [Nat.ofDigitChars_append, Nat.ofDigitChars_append, ofDigitChars_digitsOf,
        Nat.ofDigitChars_replicate_zero, Nat.ofDigitChars_cons, Nat.ofDigitChars_nil]
      simp only [Nat.sub_self, Nat.add_zero]
      ring
    have hplace : (0 : Int) - (['0'] : List Char).length =
        d.exponent - (d.exponent.toNat + 1 : Nat) := by
      simp only [List.length_singleton]
      omega
    refine ⟨_, _, ?_, hasPoint_replicate hzeros, ?_⟩
    · simp [positional, signed, hexponent]
    · rw [hnumber, hplace, normal_mul_pow]
      exact h
  · obtain ⟨whole, fraction, htext, hpoint, hlength, hnumber⟩ :=
      pointed_spec d.digits (show 0 < (-d.exponent).toNat by omega)
    refine ⟨whole, fraction, ?_, hpoint, ?_⟩
    · simp [positional, signed, hexponent, htext]
    · have hplace : (0 : Int) - fraction.length = d.exponent := by omega
      rw [hnumber, hplace]
      exact h

end Decimal

/-- Whether a number can be written and read: it is not undefined, and if it is finite, its decimal
is normal and within the range of 64-bit floating point. -/
def ExtendedDecimal.IsNumber : ExtendedDecimal → Prop
  | .finite d => d.IsNormal ∧ d.toBits?.isSome
  | .infinite _ => True
  | .undefined => False

instance : (x : ExtendedDecimal) → Decidable x.IsNumber
  | .finite d => inferInstanceAs (Decidable (d.IsNormal ∧ _))
  | .infinite _ => inferInstanceAs (Decidable True)
  | .undefined => inferInstanceAs (Decidable False)

namespace Toml

/-! ## Reading words -/

theorem ne_of_isDigit {c d : Char} (hc : c.isDigit) (hd : d.isDigit = false) : c ≠ d := by
  rintro rfl
  rw [hc] at hd
  exact absurd hd (by decide)

theorem hexValue?_of_isDigit {c : Char} (h : c.isDigit) : hexValue? c = some (c.toNat - 48) := by
  have hrange : '0' ≤ c ∧ c ≤ '9' := by
    have hnat := Char.isDigit_iff_toNat.mp h
    exact hnat
  unfold hexValue?
  rw [if_pos hrange]

theorem isDigitOf_ten {c : Char} (h : c.isDigit) : isDigitOf 10 c := by
  have hnat := Char.isDigit_iff_toNat.mp h
  unfold isDigitOf
  rw [hexValue?_of_isDigit h]
  simp only [Char.reduceToNat] at hnat
  simp only [decide_eq_true_eq]
  omega

/-- Digits of base ten are read alike in whole numbers and in decimals. -/
theorem naturalOf_ten {digits : List Char} (h : ∀ c ∈ digits, c.isDigit) :
    naturalOf 10 digits = Nat.ofDigitChars 10 digits 0 := by
  unfold naturalOf
  rw [Nat.ofDigitChars_eq_foldl]
  apply List.foldl_ext
  intro n c hc
  rw [hexValue?_of_isDigit (h c hc)]
  rfl

section

variable {unsigned : List Char}

theorem splitSign_signed (negative : Bool) (h : Decimal.IsNumeral unsigned) :
    splitSign (Decimal.signed negative unsigned) = (negative, unsigned) := by
  obtain ⟨c, rest, rfl⟩ := List.exists_cons_of_ne_nil h.ne_nil
  have hc : c.isDigit := h.isDigit_head c rfl
  have hminus : c ≠ '-' := ne_of_isDigit hc (by decide)
  have hplus : c ≠ '+' := ne_of_isDigit hc (by decide)
  cases negative with
  | true => rfl
  | false =>
    unfold splitSign Decimal.signed
    simp [hminus, hplus]

/-- A word that begins with a digit, or a minus sign and a digit, is that of a number. -/
theorem Scalar.ofWord?_signed (negative : Bool) (h : Decimal.IsNumeral unsigned) :
    ofWord? (Decimal.signed negative unsigned) =
      ofNumber? (Decimal.signed negative unsigned) unsigned := by
  have hsign := splitSign_signed negative h
  obtain ⟨c, rest, rfl⟩ := List.exists_cons_of_ne_nil h.ne_nil
  have hne (d : Char) (hd : d.isDigit = false) : c ≠ d := ne_of_isDigit (h.isDigit_head c rfl) hd
  have hbase (d : Char) (hd : ¬ (d.isDigit ∨ d = '.')) (run : List Char) : rest ≠ d :: run := by
    rintro rfl
    exact hd (h.mem d (by simp))
  unfold ofWord?
  rw [hsign]
  cases negative with
  | true =>
    simp [Decimal.signed, hne 'i' (by decide), hne 'n' (by decide)]
  | false =>
    simp only [Decimal.signed, Bool.false_eq_true, if_false]
    rw [if_neg (by simp [hne 't' (by decide)]), if_neg (by simp [hne 'f' (by decide)]),
      if_neg (by simp [hne 'i' (by decide)]), if_neg (by simp [hne 'n' (by decide)])]
    split
    · next run hword => exact absurd (List.cons.inj hword).2 (hbase 'x' (by decide) run)
    · next run hword => exact absurd (List.cons.inj hword).2 (hbase 'o' (by decide) run)
    · next run hword => exact absurd (List.cons.inj hword).2 (hbase 'b' (by decide) run)
    · rfl

end

/-- The word of a whole number. -/
theorem Scalar.ofNumber?_digits {word value : List Char} (hvalue : ∀ c ∈ value, c.isDigit)
    (hne : value ≠ []) (hhead : value.head? = some '0' → value.length = 1) :
    ofNumber? word value = some (ofInteger 10 word) := by
  have hdrop : value.dropWhile Char.isDigit = [] := by
    rw [List.dropWhile_eq_nil_iff]
    exact hvalue
  have hlead : (value.isEmpty || (value.head? == some '0' && 1 < value.length)) = false := by
    by_cases hzero : value.head? = some '0'
    · simp [hhead hzero, hne]
    · simp [hzero, hne]
  unfold ofNumber?
  rw [hdrop]
  simp [hlead]

/-- The word of a number with a point. -/
theorem Scalar.ofNumber?_point {word whole fraction : List Char}
    (h : Decimal.HasPoint whole fraction) :
    ofNumber? word (whole ++ '.' :: fraction) = ofReal? word (whole.head? == some '0') := by
  have hdrop : (whole ++ '.' :: fraction).dropWhile Char.isDigit = '.' :: fraction := by
    rw [List.dropWhile_append_of_pos h.isDigit_whole]
    rfl
  have hspace : ' ' ∉ fraction := by
    intro hmem
    exact absurd (h.isDigit_fraction _ hmem) (by decide)
  unfold ofNumber?
  rw [hdrop, List.head?_append_of_ne_nil _ h.whole_ne_nil]
  simp [hspace]

theorem decimal?_signed (negative : Bool) {whole fraction : List Char}
    (h : Decimal.HasPoint whole fraction) :
    decimal? (Decimal.signed negative (whole ++ '.' :: fraction)) =
      some (whole.length,
        .normal negative (Nat.ofDigitChars 10 (whole ++ fraction) 0) (0 - fraction.length)) := by
  have htake : (whole ++ '.' :: fraction).takeWhile Char.isDigit = whole := by
    rw [List.takeWhile_append_of_pos h.isDigit_whole]
    exact List.append_nil whole
  have hdrop : (whole ++ '.' :: fraction).dropWhile Char.isDigit = '.' :: fraction := by
    rw [List.dropWhile_append_of_pos h.isDigit_whole]
    rfl
  have hsign := splitSign_signed negative h.isNumeral
  have hfraction : fraction? ('.' :: fraction) = some (fraction, []) := by
    have hall := List.takeWhile_eq_self_iff.mpr h.isDigit_fraction
    have hnone := List.dropWhile_eq_nil_iff.mpr h.isDigit_fraction
    simp [fraction?, hall, hnone, h.fraction_ne_nil]
  have hexponent : exponent? [] = some 0 := rfl
  unfold decimal?
  simp [hsign, htake, hdrop, hfraction, hexponent, h.whole_ne_nil]

/-! ## What is written is read -/

theorem integerText_eq (n : Int) :
    integerText n = Decimal.signed (decide (n < 0)) (Decimal.digitsOf n.natAbs) := by
  unfold integerText Decimal.signed
  split <;> simp_all

theorem integer?_integerText {n : Int} (h : fits 128 n) :
    integer? 10 (integerText n) = some n := by
  have hempty : (Decimal.digitsOf n.natAbs).isEmpty = false := by
    rw [List.isEmpty_eq_false_iff]
    exact Decimal.digitsOf_ne_nil
  have hvalue : naturalOf 10 (Decimal.digitsOf n.natAbs) = n.natAbs := by
    rw [naturalOf_ten Decimal.isDigit_digitsOf, Decimal.ofDigitChars_digitsOf]
  have hall : (Decimal.digitsOf n.natAbs).all (isDigitOf 10) = true := by
    rw [List.all_eq_true]
    exact fun c hc => isDigitOf_ten (Decimal.isDigit_digitsOf c hc)
  have hsigned : (if decide (n < 0) = true then -(n.natAbs : Int) else n.natAbs) = n := by
    by_cases hnegative : n < 0
    · rw [if_pos (decide_eq_true hnegative)]
      omega
    · rw [if_neg (by simpa using hnegative)]
      omega
  rw [integerText_eq]
  unfold integer?
  rw [splitSign_signed _ (Decimal.isNumeral_digitsOf _)]
  simp only [hempty, hall, hvalue, hsigned, h, Bool.not_true, Bool.or_self, Bool.false_eq_true,
    if_false, if_true]

/-- What is written for a whole number of at most 128 bits is read as the number. -/
theorem Scalar.ofWord?_integerText {n : Int} (h : fits 128 n) :
    ofWord? (integerText n) = some (.integer n) := by
  have hhead : (Decimal.digitsOf n.natAbs).head? = some '0' →
      (Decimal.digitsOf n.natAbs).length = 1 := by
    intro hzero
    by_cases hn : n.natAbs = 0
    · rw [hn]
      rfl
    · exact absurd hzero (Decimal.head?_digitsOf hn)
  have hinteger : ofInteger 10 (integerText n) = .integer n := by
    unfold ofInteger
    rw [integer?_integerText h]
  rw [integerText_eq] at hinteger ⊢
  rw [ofWord?_signed _ (Decimal.isNumeral_digitsOf _),
    ofNumber?_digits Decimal.isDigit_digitsOf Decimal.digitsOf_ne_nil hhead, hinteger]

/-- What is written for a real number within range is read as the number. -/
theorem Scalar.ofWord?_realText {x : ExtendedDecimal} (h : x.IsNumber) :
    ofWord? (realText x) = some (.real x) := by
  cases x with
  | undefined => exact h.elim
  | infinite negative => cases negative <;> rfl
  | finite d =>
    obtain ⟨hnormal, hrange⟩ := h
    obtain ⟨whole, fraction, htext, hpoint, hvalue⟩ := Decimal.positional_spec hnormal
    have hplain : '_' ∉ Decimal.signed d.negative (whole ++ '.' :: fraction) := by
      intro hmem
      rcases Decimal.mem_signed hmem with hminus | hunsigned
      · exact absurd hminus (by decide)
      · exact absurd (hpoint.isNumeral.mem _ hunsigned) (by decide)
    have hlead : ¬ (whole.head? = some '0' ∧ 1 < whole.length) := by
      rintro ⟨hzero, hlong⟩
      have hshort := hpoint.head?_whole hzero
      omega
    have hreal : ofReal? d.positional (whole.head? == some '0') = some (.real (.finite d)) := by
      unfold ofReal?
      rw [htext, ungroup?_of_not_mem _ hplain]
      simp only [Option.bind_eq_bind, Option.bind_some, decimal?_signed d.negative hpoint, hvalue]
      simp [hlead, ofDecimal, hrange]
    show ofWord? d.positional = _
    rw [htext, ofWord?_signed _ hpoint.isNumeral, ofNumber?_point hpoint, ← htext]
    exact hreal

end Toml

end Famicom
