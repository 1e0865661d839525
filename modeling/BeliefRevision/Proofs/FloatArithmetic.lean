import BeliefRevision.Proofs.NormalNumbers

/-!
# Arithmetic on normal numbers

The sum, the product and the quotient of two normal numbers are normal numbers nearest to the
exact results, where these are well inside the range; and a whole number of 53 binary digits is
kept as it is. Nothing is said of results which are zero, too small or too large.
-/

namespace BeliefRevision.Normal

open Float.Model Float.Model.UnpackedFloat Rounding

variable (first second : Normal)

/-- A sum which starts from zero starts with its first term. -/
theorem zero_add (number : Normal) : 0.0 + number.toFloat = number.toFloat := by
  have zero : (0.0 : Float) = .ofModel (.pack (.zero .positive)) := by decide +kernel
  have unpacked : (Float.Model.pack (.zero .positive)).unpack = .zero .positive :=
    unpack_packedZero
  change Float.ofModel (.pack (UnpackedFloat.add .binary64 (0.0 : Float).toModel.unpack
    number.toFloat.toModel.unpack)) = _
  rw [zero, unpacked, unpack_toModel]
  rfl

/-- Both mantissas are written with the smaller of the exponents, and added. -/
theorem exists_add (inRange : InRange (first.value + second.value)) :
    ∃ sum : Normal, first.toFloat + second.toFloat = sum.toFloat ∧
      IsNearest sum.value (first.value + second.value) := by
  obtain ⟨exponent, smaller⟩ : ∃ exponent, min first.exponent second.exponent = exponent :=
    ⟨_, rfl⟩
  obtain ⟨firstMantissa, firstLowered⟩ : ∃ mantissa,
      decreaseExponent first.mantissa first.exponent exponent = (mantissa, exponent) :=
    ⟨_, Prod.ext rfl (by simp only [decreaseExponent]; omega)⟩
  obtain ⟨secondMantissa, secondLowered⟩ : ∃ mantissa,
      decreaseExponent second.mantissa second.exponent exponent = (mantissa, exponent) :=
    ⟨_, Prod.ext rfl (by simp only [decreaseExponent]; omega)⟩
  have firstValue := decreaseExponent_value first.mantissa first.exponent exponent
  have secondValue := decreaseExponent_value second.mantissa second.exponent exponent
  rw [firstLowered] at firstValue
  rw [secondLowered] at secondValue
  have exact : first.value + second.value =
      (firstMantissa + secondMantissa : ℕ) * 2 ^ exponent := by
    rw [value, value, ← firstValue, ← secondValue]
    push_cast
    ring
  rw [exact] at inRange ⊢
  obtain ⟨sum, rounded, nearest⟩ := exists_normal_round _ exponent inRange
  refine ⟨sum, ?_, nearest⟩
  change Float.ofModel (.pack (UnpackedFloat.add .binary64 first.toFloat.toModel.unpack
    second.toFloat.toModel.unpack)) = _
  rw [unpack_toModel, unpack_toModel, toFloat, ← rounded,
    ← normalize_natCast (pos_of_inRange inRange) exponent .positive]
  simp only [UnpackedFloat.add, unpacked, smaller, firstLowered, secondLowered]
  rfl

/-- A product within the range of normal numbers is the one nearest to the exact product. -/
theorem exists_mul (inRange : InRange (first.value * second.value)) :
    ∃ product : Normal, first.toFloat * second.toFloat = product.toFloat ∧
      IsNearest product.value (first.value * second.value) := by
  have exact : first.value * second.value =
      (first.mantissa * second.mantissa : ℕ) * 2 ^ (first.exponent + second.exponent) := by
    rw [value, value, zpow_add₀ two_ne_zero]
    push_cast
    ring
  have enough : 2 ^ 52 ≤ first.mantissa * second.mantissa :=
    first.leading.trans (Nat.le_mul_of_pos_right _ second.mantissa_pos)
  rw [exact] at inRange ⊢
  obtain ⟨product, rounded, nearest⟩ :=
    exists_normal_roundWithAccuracy (describes_exact _) enough inRange
  refine ⟨product, ?_, nearest⟩
  change Float.ofModel (.pack (UnpackedFloat.mul .binary64 first.toFloat.toModel.unpack
    second.toFloat.toModel.unpack)) = _
  rw [unpack_toModel, unpack_toModel, toFloat, ← rounded]
  rfl

/-- The dividend is made so long that the quotient has digits enough; the remainder says how it
is to be rounded. -/
theorem exists_div (inRange : InRange (first.value / second.value)) :
    ∃ quotient : Normal, first.toFloat / second.toFloat = quotient.toFloat ∧
      IsNearest quotient.value (first.value / second.value) := by
  have secondPositive : (0 : ℚ) < second.mantissa := by exact_mod_cast second.mantissa_pos
  have exact : first.value / second.value = (first.mantissa * 2 ^ 53 : ℕ) / second.mantissa *
      2 ^ (first.exponent - second.exponent - 53) := by
    rw [value, value, zpow_sub₀ two_ne_zero, zpow_sub₀ two_ne_zero]
    push_cast
    field_simp
  have enough : 2 ^ 52 ≤ first.mantissa * 2 ^ 53 / second.mantissa := by
    rw [Nat.le_div_iff_mul_le second.mantissa_pos]
    exact Nat.mul_le_mul first.leading second.fits.le
  have shift : (first.exponent - second.exponent -
      (first.exponent - second.exponent - 53)).toNat = 53 := by omega
  rw [exact] at inRange ⊢
  have described := describes_quotient second.mantissa_pos (first.mantissa * 2 ^ 53)
  have notBelow : -1074 ≤ first.exponent - second.exponent - 53 := by
    obtain ⟨atLeast, less⟩ := log2_bounds described (by omega)
    have digits : (first.mantissa * 2 ^ 53 / second.mantissa).log2 < 54 := by
      rw [Nat.log2_lt (by omega), Nat.div_lt_iff_lt_mul second.mantissa_pos]
      have := first.fits
      have := second.leading
      omega
    have := (exponent_bounds atLeast less inRange).1
    omega
  have target : min (first.exponent - second.exponent)
      (Format.binary64.targetExponent (totalExponent first.mantissa first.exponent -
        totalExponent second.mantissa second.exponent)) =
      first.exponent - second.exponent - 53 := by
    simp only [Format.targetExponent, totalExponent, Format.mantissaBits, Format.minExponent,
      log2_mantissa]
    norm_num
    omega
  obtain ⟨quotient, rounded, nearest⟩ := exists_normal_roundWithAccuracy described enough inRange
  refine ⟨quotient, ?_, nearest⟩
  change Float.ofModel (.pack (UnpackedFloat.div .binary64 first.toFloat.toModel.unpack
    second.toFloat.toModel.unpack)) = _
  rw [unpack_toModel, unpack_toModel, toFloat, ← rounded]
  simp only [UnpackedFloat.div, unpacked, divCore, target, shift, Nat.shiftLeft_eq]
  rfl

/-- One. -/
def one : Normal := ⟨2 ^ 52, -52, le_rfl, by decide, by decide, by decide⟩

/-- The number one is the one which is written in the program. -/
theorem one_toFloat : one.toFloat = 1.0 := by decide +kernel

/-- Its value is exactly one. -/
theorem one_value : one.value = 1 := by
  rw [value, one]
  norm_num

/-- A whole number of 53 binary digits is kept. -/
theorem exists_toFloat {count : ℕ} (positive : 0 < count) (fits : count < 2 ^ 53) :
    ∃ number : Normal, count.toFloat = number.toFloat ∧ number.value = count := by
  have inRange : InRange count := by
    refine inRange_of_bounds (le_trans (by norm_num) (Nat.one_le_cast.mpr positive)) ?_
    exact_mod_cast fits.le
  have word : count.toUInt64.toNat = count := Nat.mod_eq_of_lt (by omega)
  have exact : (count * 2 ^ (0 : ℤ) : ℚ) = count := by rw [zpow_zero, mul_one]
  obtain ⟨number, rounded, nearest⟩ := exists_normal_round count 0 (by rwa [exact])
  have kept : number.value = count := (nearest.eq_of_eq count 0 fits rfl).trans exact
  have converted : count.toUInt64.toFloat = number.toFloat := by
    change Float.ofModel (.pack (UnpackedFloat.normalize .binary64 (count.toUInt64.toNat : ℕ) 0
      .positive)) = _
    rw [word, normalize_natCast positive, rounded]
    rfl
  obtain ⟨product, multiplied, productNearest⟩ := exists_mul number one
    (by rwa [one_value, mul_one, kept])
  rw [one_value, mul_one, kept] at productNearest
  refine ⟨product, ?_, productNearest.eq_of_eq count 0 fits exact.symm⟩
  rw [← multiplied, ← converted]
  change Float.ofScientific count false 0 = _
  rw [Float.ofScientific, dif_pos ⟨fits, by decide⟩, one_toFloat]
  have power : Float.exactlyRepresentablePowersOfTen[0]? = some 1.0 := by decide +kernel
  exact congrArg (count.toUInt64.toFloat * ·) (Array.getElem_eq_iff.mpr power)

end BeliefRevision.Normal
