import BeliefRevision.Proofs.Rounding
import Mathlib

/-!
# Normal numbers

A positive floating point number which is neither too small nor too large is a mantissa of 53
binary digits and an exponent. Its bits are the exponent, counted from the least one, followed by
the mantissa without its leading digit; so the bits of two such numbers, read as whole numbers,
are in the order of their values.

A result with as many digits, or more, is rounded to a normal number which is nearest to it.
-/

namespace BeliefRevision

open Float.Model Float.Model.UnpackedFloat Rounding

/-- A positive number with a mantissa of 53 binary digits, the first of them not zero. -/
structure Normal where
  mantissa : ℕ
  exponent : ℤ
  leading : 2 ^ 52 ≤ mantissa
  fits : mantissa < 2 ^ 53
  notBelow : -1074 ≤ exponent
  notAbove : exponent ≤ 971

namespace Normal

variable (number : Normal)

/-- The mantissa of a normal number is not zero, as its leading digit is one. -/
theorem mantissa_pos : 0 < number.mantissa := by
  have := number.leading
  omega

/-- The number with its parts apart. -/
def unpacked : Float.Model.UnpackedFloat :=
  .finite .positive number.mantissa number.exponent number.mantissa_pos

/-- The number as the program has it, with its parts packed into 64 bits. -/
def toFloat : Float := .ofModel (.pack number.unpacked)

/-- The exact value. -/
def value : ℚ := number.mantissa * 2 ^ number.exponent

/-- The value is at least that of the leading digit. -/
theorem leading_le_value : 2 ^ 52 * 2 ^ number.exponent ≤ number.value := by
  rw [value]
  gcongr
  exact_mod_cast number.leading

/-- The mantissa has 53 binary digits. -/
theorem log2_mantissa : number.mantissa.log2 = 52 :=
  (Nat.log2_eq_iff number.mantissa_pos.ne').mpr ⟨number.leading, number.fits⟩

/-- The exponent as it is stored. -/
def storedExponent : ℕ := (number.exponent + 1075).toNat

/-- The stored exponent is never negative, and so nothing is lost where it is made a natural number.
-/
theorem storedExponent_eq : (number.storedExponent : ℤ) = number.exponent + 1075 :=
  Int.toNat_of_nonneg (by have := number.notBelow; omega)

/-- The least and the greatest stored exponent are not those of normal numbers. -/
theorem storedExponent_bounds : 0 < number.storedExponent ∧ number.storedExponent < 2047 := by
  have stored := number.storedExponent_eq
  have notBelow := number.notBelow
  have notAbove := number.notAbove
  omega

/-- A normal number is packed as it is: its mantissa needs no shift and its exponent is in range. -/
theorem pack_unpacked : UnpackedFloat.pack .binary64 number.unpacked =
    packComponents .binary64 .positive (BitVec.ofNat 11 number.storedExponent)
      (BitVec.ofNat 52 number.mantissa) := by
  have stored : (number.exponent + (Format.binary64.exponentBias : ℕ) + (52 : ℕ)).toNat =
      number.storedExponent := by
    rw [storedExponent, Format.exponentBias]
    norm_num
    ring_nf
  have notInfinite : ¬2 ^ 11 ≤ number.storedExponent + 1 := by
    have bounds := number.storedExponent_bounds
    omega
  simp only [UnpackedFloat.pack, unpacked, stored, notInfinite, log2_mantissa, Format.mantissaBits,
    if_false]
  rfl

/-- The stored exponent fits into its eleven bits. -/
theorem toNat_storedExponent :
    (BitVec.ofNat 11 number.storedExponent).toNat = number.storedExponent := by
  have bounds := number.storedExponent_bounds
  exact (BitVec.toNat_ofNat ..).trans (Nat.mod_eq_of_lt (by omega))

/-- The leading digit is not stored. -/
theorem toNat_mantissa : (BitVec.ofNat 52 number.mantissa).toNat = number.mantissa - 2 ^ 52 := by
  have leading := number.leading
  have fits := number.fits
  rw [BitVec.toNat_ofNat]
  omega

/-- Packing a normal number loses nothing. -/
theorem unpack_toModel : number.toFloat.toModel.unpack = number.unpacked := by
  have exponent := number.toNat_storedExponent
  have mantissa := number.toNat_mantissa
  have bounds := number.storedExponent_bounds
  have notAllOnes : BitVec.ofNat 11 number.storedExponent ≠ -1#11 := by
    rw [ne_eq, ← BitVec.toNat_inj, exponent]
    change number.storedExponent ≠ 2047
    omega
  have notZero : BitVec.ofNat 11 number.storedExponent ≠ 0#11 := by
    rw [ne_eq, ← BitVec.toNat_inj, exponent]
    change number.storedExponent ≠ 0
    omega
  have whole : (1#1 ++ BitVec.ofNat 52 number.mantissa).toNat = number.mantissa := by
    have leading := number.leading
    have fits := number.fits
    rw [BitVec.toNat_append, mantissa, ← Nat.shiftLeft_add_eq_or_of_lt (by omega)]
    simp [Nat.shiftLeft_eq]
    omega
  change UnpackedFloat.unpack .binary64 (UnpackedFloat.pack .binary64 number.unpacked) = _
  rw [pack_unpacked]
  simp only [UnpackedFloat.unpack, unpackMantissa_packComponents, unpackExponent_packComponents,
    unpackSign_packComponents, notAllOnes, notZero, whole, exponent, if_false]
  rw [unpacked]
  congr 1
  rw [number.storedExponent_eq, Format.exponentBias]
  norm_num

/-- The bits of a normal number are its exponent and its mantissa, one after the other. -/
theorem toNat_toBits : number.toFloat.toBits.toNat =
    number.storedExponent * 2 ^ 52 + (number.mantissa - 2 ^ 52) := by
  change (UnpackedFloat.pack .binary64 number.unpacked).toNat = _
  rw [pack_unpacked, packComponents, BitVec.toNat_append, BitVec.toNat_append,
    number.toNat_storedExponent, number.toNat_mantissa,
    ← Nat.shiftLeft_add_eq_or_of_lt (by have := number.fits; omega)]
  simp [Nat.shiftLeft_eq, Sign.toBitVec]

/-- The bits of normal numbers are in the order of their values. -/
theorem toBits_le_toBits_iff (first second : Normal) :
    first.toFloat.toBits ≤ second.toFloat.toBits ↔ first.value ≤ second.value := by
  have firstBits := first.toNat_toBits
  have secondBits := second.toNat_toBits
  have firstStored := first.storedExponent_eq
  have secondStored := second.storedExponent_eq
  have firstFits := first.fits
  have secondFits := second.fits
  have firstLeading := first.leading
  have secondLeading := second.leading
  rw [UInt64.le_iff_toNat_le, firstBits, secondBits]
  rcases lt_trichotomy first.exponent second.exponent with less | same | greater
  · have below : first.value < second.value :=
      (lt_of_fits first.fits less).trans_le second.leading_le_value
    exact iff_of_true (by omega) below.le
  · have stored : first.storedExponent = second.storedExponent := by omega
    rw [value, value, same, mul_le_mul_iff_left₀ (by positivity), Nat.cast_le, stored]
    omega
  · have above : second.value < first.value :=
      (lt_of_fits second.fits greater).trans_le first.leading_le_value
    exact iff_of_false (by omega) (not_le.mpr above)

end Normal

/-- Well inside the range of normal numbers. -/
def InRange (exact : ℚ) : Prop := 2 ^ (-1000 : ℤ) ≤ exact ∧ exact < 2 ^ (1000 : ℤ)

/-- Numbers of up to 53 digits and their reciprocals are well inside the range. -/
theorem inRange_of_bounds {exact : ℚ} (atLeast : 1 / 2 ^ 53 ≤ exact) (atMost : exact ≤ 2 ^ 53) :
    InRange exact := by
  constructor
  · refine le_trans ?_ atLeast
    rw [one_div, ← zpow_natCast, ← zpow_neg]
    exact zpow_le_zpow_right₀ one_le_two (by norm_num)
  · refine atMost.trans_lt ?_
    rw [← zpow_natCast]
    exact zpow_lt_zpow_right₀ one_lt_two (by norm_num)

/-- Where no subnormal number can result, rounding aims at 53 digits. -/
theorem targetExponent_eq {mantissa : ℕ} {exponent : ℤ}
    (normal : -1000 ≤ mantissa.log2 + exponent) :
    Format.binary64.targetExponent (totalExponent mantissa exponent) =
      mantissa.log2 + exponent - 52 := by
  simp only [Format.targetExponent, totalExponent, Format.mantissaBits, Format.minExponent]
  norm_num
  omega

/-- Of a mantissa with more than 53 digits, the last ones are shifted out. -/
theorem shiftToTargetExponent_eq (mantissa : ℕ) (exponent : ℤ) (accuracy : Accuracy)
    (normal : -1000 ≤ mantissa.log2 + exponent) (enough : 2 ^ 52 ≤ mantissa) :
    shiftToTargetExponent .binary64 mantissa exponent accuracy =
      (ExtendedMantissa.ofMantissaAndAccuracy mantissa accuracy >>> (mantissa.log2 - 52),
        exponent + (mantissa.log2 - 52 : ℕ)) := by
  have digits : 52 ≤ mantissa.log2 := (Nat.le_log2 (by omega)).mpr enough
  have shift : (mantissa.log2 + exponent - 52 - exponent).toNat = mantissa.log2 - 52 := by omega
  simp only [shiftToTargetExponent, targetExponent_eq normal, shiftToExponent, shift]

/-- The digits of a described number say between which powers of two it lies. -/
theorem log2_bounds {mantissa : ℕ} {accuracy : Accuracy} {exact : ℚ}
    (described : Describes (.ofMantissaAndAccuracy mantissa accuracy) exact)
    (positive : mantissa ≠ 0) :
    (2 : ℚ) ^ mantissa.log2 ≤ exact ∧ exact < 2 ^ (mantissa.log2 + 1) := by
  have same : (ExtendedMantissa.ofMantissaAndAccuracy mantissa accuracy).mantissa = mantissa := by
    cases accuracy with
    | exact => rfl
    | inexact order => cases order <;> rfl
  obtain ⟨notBelow, notAbove⟩ := described.cutOff
  rw [same] at notBelow notAbove
  have first : ((2 ^ mantissa.log2 : ℕ) : ℚ) ≤ mantissa := by
    exact_mod_cast Nat.log2_self_le positive
  have next : ((mantissa + 1 : ℕ) : ℚ) ≤ (2 ^ (mantissa.log2 + 1) : ℕ) := by
    exact_mod_cast Nat.lt_log2_self
  push_cast at first next
  exact ⟨first.trans notBelow, notAbove.trans_le next⟩

/-- The range limits the exponent together with the digits. -/
theorem exponent_bounds {digits : ℕ} {exponent : ℤ} {exact : ℚ}
    (atLeast : (2 : ℚ) ^ digits ≤ exact) (less : exact < 2 ^ (digits + 1))
    (inRange : InRange (exact * 2 ^ exponent)) :
    -1000 ≤ digits + exponent ∧ digits + exponent < 1000 := by
  have positive : (0 : ℚ) < 2 ^ exponent := by positivity
  constructor
  · have above : (2 : ℚ) ^ (-1000 : ℤ) < 2 ^ (digits + 1 + exponent : ℤ) := by
      rw [zpow_add₀ two_ne_zero]
      exact inRange.1.trans_lt (mul_lt_mul_of_pos_right (by exact_mod_cast less) positive)
    have := (zpow_lt_zpow_iff_right₀ one_lt_two).mp above
    omega
  · have below : (2 : ℚ) ^ (digits + exponent : ℤ) < 2 ^ (1000 : ℤ) := by
      rw [zpow_add₀ two_ne_zero]
      exact (mul_le_mul_of_nonneg_right (by exact_mod_cast atLeast) positive.le).trans_lt inRange.2
    exact (zpow_lt_zpow_iff_right₀ one_lt_two).mp below

/-- After the first shift the mantissa is rounded. Where this leads to one digit more, the last
digit is zero, and is shifted out. -/
theorem exists_normal_of_shift {mantissa : ℕ} {exponent unit : ℤ} {accuracy : Accuracy}
    {kept : ExtendedMantissa}
    (shifted : shiftToTargetExponent .binary64 mantissa exponent accuracy = (kept, unit))
    (atLeast : 2 ^ 52 ≤ kept.roundedMantissa) (atMost : kept.roundedMantissa ≤ 2 ^ 53)
    (notBelow : -1052 ≤ unit) (notAbove : unit ≤ 970) :
    ∃ number : Normal,
      roundWithAccuracy .binary64 .positive mantissa exponent accuracy = number.unpacked ∧
        number.value = kept.roundedMantissa * 2 ^ unit := by
  rcases atMost.lt_or_eq with fits | overflow
  · have length : kept.roundedMantissa.log2 = 52 :=
      (Nat.log2_eq_iff (by omega)).mpr ⟨atLeast, fits⟩
    have again := shiftToTargetExponent_eq kept.roundedMantissa unit .exact (by omega) atLeast
    rw [length, Nat.sub_self, Nat.cast_zero, add_zero] at again
    refine ⟨⟨kept.roundedMantissa, unit, atLeast, fits, by omega, by omega⟩, ?_, rfl⟩
    simp only [roundWithAccuracy, shifted, again]
    exact dif_neg (by change kept.roundedMantissa ≠ 0; omega)
  · have again := shiftToTargetExponent_eq kept.roundedMantissa unit .exact
      (by rw [overflow, Nat.log2_two_pow]; omega) atLeast
    rw [overflow, Nat.log2_two_pow] at again
    refine ⟨⟨2 ^ 52, unit + 1, le_rfl, by norm_num, by omega, by omega⟩, ?_, ?_⟩
    · simp only [roundWithAccuracy, shifted, overflow, again]
      rfl
    · rw [Normal.value, zpow_add_one₀ two_ne_zero, overflow]
      push_cast
      ring

/-- A result which is known to 53 digits and more is rounded to a nearest normal number. -/
theorem exists_normal_roundWithAccuracy {mantissa : ℕ} {exponent : ℤ} {accuracy : Accuracy}
    {exact : ℚ} (described : Describes (.ofMantissaAndAccuracy mantissa accuracy) exact)
    (enough : 2 ^ 52 ≤ mantissa) (inRange : InRange (exact * 2 ^ exponent)) :
    ∃ number : Normal,
      roundWithAccuracy .binary64 .positive mantissa exponent accuracy = number.unpacked ∧
        IsNearest number.value (exact * 2 ^ exponent) := by
  obtain ⟨atLeast, less⟩ := log2_bounds described (by omega)
  obtain ⟨notBelow, notAbove⟩ := exponent_bounds atLeast less inRange
  obtain ⟨places, digits⟩ := Nat.exists_eq_add_of_le ((Nat.le_log2 (by omega)).mpr enough)
  have shift := shiftToTargetExponent_eq mantissa exponent accuracy notBelow enough
  rw [digits, Nat.add_sub_cancel_left] at shift
  rw [digits] at atLeast less notBelow notAbove
  have shifted := described.shiftRight places
  have units : exact * 2 ^ exponent = exact / 2 ^ places * 2 ^ (exponent + places) := by
    rw [zpow_add₀ two_ne_zero, zpow_natCast]
    field_simp
  have exactAtLeast : 2 ^ 52 ≤ exact / 2 ^ places := by
    rw [le_div_iff₀ (by positivity), ← pow_add]
    exact atLeast
  have exactLess : exact / 2 ^ places < 2 ^ 53 := by
    rw [div_lt_iff₀ (by positivity), ← pow_add]
    exact less.trans_eq (by ring)
  have bounds := shifted.roundedMantissa_bounds exactAtLeast exactLess
  obtain ⟨number, rounded, value⟩ :=
    exists_normal_of_shift shift bounds.1 bounds.2 (by omega) (by omega)
  refine ⟨number, rounded, ?_⟩
  rw [value, units]
  exact shifted.isNearest exactAtLeast exactLess (exponent + places)

/-- Writing a number with a smaller exponent does not change it. -/
theorem decreaseExponent_value (mantissa : ℕ) (exponent target : ℤ) :
    ((decreaseExponent mantissa exponent target).1 *
      2 ^ (decreaseExponent mantissa exponent target).2 : ℚ) = mantissa * 2 ^ exponent := by
  simp only [decreaseExponent, Nat.shiftLeft_eq]
  rw [zpow_sub₀ two_ne_zero, zpow_natCast]
  push_cast
  field_simp

/-- What is in range is not zero, and so its mantissa is positive. -/
theorem pos_of_inRange {count : ℕ} {exponent : ℤ} (inRange : InRange (count * 2 ^ exponent)) :
    0 < count := by
  have positive : (0 : ℚ) < 2 ^ (-1000 : ℤ) := by positivity
  exact_mod_cast pos_of_mul_pos_left (positive.trans_le inRange.1) (by positivity)

/-- A number is rounded to a nearest normal number, where it is well inside the range. -/
theorem exists_normal_round (mantissa : ℕ) (exponent : ℤ)
    (inRange : InRange (mantissa * 2 ^ exponent)) :
    ∃ number : Normal, UnpackedFloat.round .binary64 .positive mantissa exponent = number.unpacked ∧
      IsNearest number.value (mantissa * 2 ^ exponent) := by
  have positive : mantissa ≠ 0 := (pos_of_inRange inRange).ne'
  obtain ⟨atLeast, less⟩ := log2_bounds (describes_exact mantissa) positive
  obtain ⟨notBelow, -⟩ := exponent_bounds atLeast less inRange
  have same := decreaseExponent_value mantissa exponent (mantissa.log2 + exponent - 52)
  have enough :
      2 ^ 52 ≤ (decreaseExponent mantissa exponent (mantissa.log2 + exponent - 52)).1 := by
    rw [decreaseExponent, Nat.shiftLeft_eq]
    calc 2 ^ 52 ≤ 2 ^ (mantissa.log2 + (exponent - (mantissa.log2 + exponent - 52)).toNat) :=
          Nat.pow_le_pow_right two_pos (by omega)
      _ = 2 ^ mantissa.log2 * 2 ^ (exponent - (mantissa.log2 + exponent - 52)).toNat := pow_add ..
      _ ≤ _ := Nat.mul_le_mul_right _ (Nat.log2_self_le positive)
  rw [← same] at inRange ⊢
  simp only [UnpackedFloat.round, targetExponent_eq notBelow]
  exact exists_normal_roundWithAccuracy (describes_exact _) enough inRange

/-- A positive mantissa is normalized by rounding it, with a positive sign. -/
theorem normalize_natCast {mantissa : ℕ} (positive : 0 < mantissa) (exponent : ℤ)
    (zeroSign : Sign) : UnpackedFloat.normalize .binary64 mantissa exponent zeroSign =
      UnpackedFloat.round .binary64 .positive mantissa exponent := by
  have order : compare (mantissa : ℤ) 0 = .gt := by
    rw [Int.compare_eq_gt]
    omega
  rw [UnpackedFloat.normalize, order]
  rfl

end BeliefRevision
