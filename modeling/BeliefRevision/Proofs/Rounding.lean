import Mathlib.Algebra.Order.Field.Basic
import Mathlib.Algebra.Order.Field.Power
import Mathlib.Data.Rat.Cast.Order
import Mathlib.Tactic.FieldSimp
import Mathlib.Tactic.GCongr
import Mathlib.Tactic.Linarith
import Mathlib.Tactic.Ring

/-!
# Rounding to the nearest number

Floating point arithmetic keeps the leading binary digits of a result and two bits on what comes
after them: the next digit, and whether anything follows it. These two say on which side of the
middle between two neighbours the exact result lies, and shifting digits out keeps this
knowledge. So rounding by them is rounding to the nearest, and the error is half a unit at most.

Everything is said of exact rational numbers.
-/

namespace BeliefRevision.Rounding

open Float.Model.UnpackedFloat

/-- What the kept digits and the two residual bits say of the exact number, in units of the
last digit which is kept. -/
def Describes : ExtendedMantissa → ℚ → Prop
  | ⟨mantissa, false, false⟩, exact => exact = mantissa
  | ⟨mantissa, false, true⟩, exact => mantissa < exact ∧ exact < mantissa + 1 / 2
  | ⟨mantissa, true, false⟩, exact => exact = mantissa + 1 / 2
  | ⟨mantissa, true, true⟩, exact => mantissa + 1 / 2 < exact ∧ exact < mantissa + 1

namespace Describes

variable {kept : ExtendedMantissa} {exact : ℚ}

/-- The digits which are kept are those of the exact number, cut off. -/
theorem cutOff (described : Describes kept exact) :
    (kept.mantissa : ℚ) ≤ exact ∧ exact < kept.mantissa + 1 := by
  obtain ⟨mantissa, roundBit, stickyBit⟩ := kept
  cases roundBit <;> cases stickyBit <;> simp only [Describes] at described ⊢ <;>
    constructor <;> linarith

/-- One more digit is cut off: it becomes the next digit, and the old one is remembered. -/
theorem shiftRightOne (described : Describes kept exact) :
    Describes kept.shiftRightOne (exact / 2) := by
  obtain ⟨mantissa, roundBit, stickyBit⟩ := kept
  have digits : (mantissa : ℚ) = 2 * (mantissa / 2 : ℕ) + (mantissa % 2 : ℕ) := by
    exact_mod_cast (Nat.div_add_mod mantissa 2).symm
  rcases Nat.mod_two_eq_zero_or_one mantissa with last | last <;> rw [last] at digits <;>
    push_cast at digits <;> cases roundBit <;> cases stickyBit <;>
    simp only [Describes, ExtendedMantissa.shiftRightOne, last, Nat.reduceBneDiff,
      Bool.or_false, Bool.or_true] at described ⊢ <;>
    first | linarith | constructor <;> linarith

/-- Digits are cut off one by one, and what is known of them stays right. -/
theorem shiftRight (described : Describes kept exact) (digits : ℕ) :
    Describes (kept >>> digits) (exact / 2 ^ digits) := by
  change Describes (digits.repeat ExtendedMantissa.shiftRightOne kept) _
  induction digits with
  | zero => simpa [Nat.repeat] using described
  | succ digits inductionHypothesis =>
    rw [Nat.repeat, pow_succ, ← div_div]
    exact inductionHypothesis.shiftRightOne

/-- Rounding gives a nearest whole number. -/
theorem rounded (described : Describes kept exact) :
    |(kept.roundedMantissa : ℚ) - exact| ≤ 1 / 2 := by
  obtain ⟨mantissa, roundBit, stickyBit⟩ := kept
  have parity : ((mantissa % 2 : ℕ) : ℚ) = 0 ∨ ((mantissa % 2 : ℕ) : ℚ) = 1 := by
    exact_mod_cast Nat.mod_two_eq_zero_or_one mantissa
  cases roundBit <;> cases stickyBit <;>
    simp only [Describes, ExtendedMantissa.roundedMantissa, ExtendedMantissa.accuracy,
      Accuracy.roundToNearestEven] at described ⊢ <;>
    push_cast <;> rw [abs_le]
  · constructor <;> linarith
  · constructor <;> linarith
  · rcases parity with even | odd <;> constructor <;> linarith
  · constructor <;> linarith

end Describes

/-- A whole number is described by itself with nothing after it. -/
theorem describes_exact (mantissa : ℕ) :
    Describes (.ofMantissaAndAccuracy mantissa .exact) mantissa := rfl

/-- A fraction is described by where it stands to one half. -/
theorem describes_fraction {remainder divisor : ℕ} (proper : remainder < divisor) (whole : ℕ) :
    Describes (.ofMantissaAndAccuracy whole (accuracyOfFraction remainder divisor))
      (whole + remainder / divisor) := by
  have positive : (0 : ℚ) < divisor := by exact_mod_cast Nat.zero_lt_of_lt proper
  have below : (remainder : ℚ) / divisor < 1 :=
    (div_lt_one₀ positive).mpr (by exact_mod_cast proper)
  rw [accuracyOfFraction]
  split
  case isTrue none =>
    rw [none, Nat.cast_zero, zero_div, add_zero]
    exact describes_exact whole
  case isFalse some =>
    have above : (0 : ℚ) < remainder / divisor :=
      div_pos (by exact_mod_cast Nat.pos_of_ne_zero some) positive
    cases order : compare (2 * remainder) divisor with
    | lt =>
      have half : (remainder : ℚ) / divisor < 1 / 2 := by
        rw [div_lt_iff₀ positive]
        have doubled : (2 * remainder : ℚ) < divisor := by
          exact_mod_cast Nat.compare_eq_lt.mp order
        linarith
      exact ⟨by linarith, by linarith⟩
    | eq =>
      have half : (remainder : ℚ) / divisor = 1 / 2 := by
        rw [div_eq_iff positive.ne']
        have doubled : (2 * remainder : ℚ) = divisor := by
          exact_mod_cast Nat.compare_eq_eq.mp order
        linarith
      exact congrArg ((whole : ℚ) + ·) half
    | gt =>
      have half : 1 / 2 < (remainder : ℚ) / divisor := by
        rw [lt_div_iff₀ positive]
        have doubled : (divisor : ℚ) < 2 * remainder := by
          exact_mod_cast Nat.compare_eq_gt.mp order
        linarith
      exact ⟨by linarith, by linarith⟩

/-- A quotient of whole numbers is described by the whole part and the remainder. -/
theorem describes_quotient {divisor : ℕ} (positive : 0 < divisor) (dividend : ℕ) :
    Describes (.ofMantissaAndAccuracy (dividend / divisor)
      (accuracyOfFraction (dividend % divisor) divisor)) (dividend / divisor) := by
  have division : (dividend : ℚ) / divisor =
      (dividend / divisor : ℕ) + (dividend % divisor : ℕ) / divisor := by
    have divisorPositive : (0 : ℚ) < divisor := by exact_mod_cast positive
    field_simp
    exact_mod_cast (Nat.div_add_mod dividend divisor).symm
  rw [division]
  exact describes_fraction (Nat.mod_lt dividend positive) _

/-- The number is a nearest one to the exact number among those with 53 binary digits: it is
a whole number of units, where the unit is such that the exact number has 53 digits before the
point. -/
def IsNearest (number exact : ℚ) : Prop :=
  ∃ (count : ℕ) (unit : ℤ), 2 ^ 52 * 2 ^ unit ≤ exact ∧ exact < 2 ^ 53 * 2 ^ unit ∧
    number = count * 2 ^ unit ∧ |number - exact| ≤ 2 ^ unit / 2

/-- Rounding may lead to one digit more, but to no further one. -/
theorem Describes.roundedMantissa_bounds {kept : ExtendedMantissa} {exact : ℚ}
    (described : Describes kept exact) (atLeast : 2 ^ 52 ≤ exact) (less : exact < 2 ^ 53) :
    2 ^ 52 ≤ kept.roundedMantissa ∧ kept.roundedMantissa ≤ 2 ^ 53 := by
  obtain ⟨errorBelow, errorAbove⟩ := abs_le.mp described.rounded
  constructor
  · have close : (2 ^ 52 : ℚ) < kept.roundedMantissa + 1 := by linarith
    exact Nat.lt_succ_iff.mp (by exact_mod_cast close)
  · have close : (kept.roundedMantissa : ℚ) < 2 ^ 53 + 1 := by linarith
    exact Nat.lt_succ_iff.mp (by exact_mod_cast close)

/-- What is rounded by the kept digits and the two bits is nearest to what they describe, in any
unit. -/
theorem Describes.isNearest {kept : ExtendedMantissa} {exact : ℚ} (described : Describes kept exact)
    (atLeast : 2 ^ 52 ≤ exact) (less : exact < 2 ^ 53) (unit : ℤ) :
    IsNearest (kept.roundedMantissa * 2 ^ unit) (exact * 2 ^ unit) := by
  refine ⟨kept.roundedMantissa, unit, ?_, ?_, rfl, ?_⟩
  · gcongr
  · gcongr
  · rw [← sub_mul, abs_mul, abs_of_pos (by positivity : (0 : ℚ) < 2 ^ unit), div_eq_inv_mul]
    gcongr
    simpa using described.rounded

section Units

variable {digits : ℕ} {last unit : ℤ}

/-- A number in a larger unit is a whole number of smaller ones. -/
theorem exists_units (digits : ℕ) (atLeast : unit ≤ last) :
    ∃ count : ℕ, (digits * 2 ^ last : ℚ) = count * 2 ^ unit := by
  obtain ⟨places, rfl⟩ := Int.le.dest atLeast
  refine ⟨digits * 2 ^ places, ?_⟩
  rw [zpow_add₀ two_ne_zero, zpow_natCast]
  push_cast
  ring

/-- A number of 53 digits in a smaller unit is less than any of as many digits in a larger one. -/
theorem lt_of_fits (fits : digits < 2 ^ 53) (less : last < unit) :
    (digits * 2 ^ last : ℚ) < 2 ^ 52 * 2 ^ unit := by
  calc (digits * 2 ^ last : ℚ) < 2 ^ 53 * 2 ^ last := by gcongr; exact_mod_cast fits
    _ = 2 ^ 52 * 2 ^ (last + 1) := by rw [zpow_add_one₀ two_ne_zero]; ring
    _ ≤ 2 ^ 52 * 2 ^ unit := by gcongr <;> [exact one_le_two; exact less]

end Units

namespace IsNearest

variable {number exact : ℚ}

/-- The error is small when compared with the exact number. -/
theorem error_le (nearest : IsNearest number exact) : |number - exact| ≤ exact / 2 ^ 53 := by
  obtain ⟨count, unit, atLeast, -, -, error⟩ := nearest
  refine error.trans ?_
  rw [div_le_div_iff₀ two_pos (by positivity)]
  linarith

/-- Rounding does not go above a number which has few enough digits. -/
theorem le_of_le (nearest : IsNearest number exact) (digits : ℕ) (last : ℤ)
    (fits : digits < 2 ^ 53) (below : exact ≤ digits * 2 ^ last) :
    number ≤ digits * 2 ^ last := by
  obtain ⟨count, unit, atLeast, -, rfl, error⟩ := nearest
  have positive : (0 : ℚ) < 2 ^ unit := by positivity
  rcases le_or_gt unit last with higher | lower
  · obtain ⟨bound, inUnits⟩ := exists_units digits higher
    rw [inUnits] at below ⊢
    have close : (count : ℚ) < bound + 1 := by
      refine lt_of_mul_lt_mul_right ?_ positive.le
      linarith [abs_le.mp error]
    have whole : count ≤ bound := Nat.lt_succ_iff.mp (by exact_mod_cast close)
    gcongr
  · exact absurd (below.trans_lt (lt_of_fits fits lower)) (not_lt.mpr atLeast)

/-- Rounding does not go below a number which has few enough digits. -/
theorem ge_of_ge (nearest : IsNearest number exact) (digits : ℕ) (last : ℤ)
    (fits : digits < 2 ^ 53) (above : digits * 2 ^ last ≤ exact) :
    digits * 2 ^ last ≤ number := by
  obtain ⟨count, unit, atLeast, -, rfl, error⟩ := nearest
  have positive : (0 : ℚ) < 2 ^ unit := by positivity
  have reaches : ∀ bound : ℕ, (bound * 2 ^ unit : ℚ) ≤ exact →
      (bound * 2 ^ unit : ℚ) ≤ count * 2 ^ unit := by
    intro bound reached
    have close : (bound : ℚ) < count + 1 := by
      refine lt_of_mul_lt_mul_right ?_ positive.le
      linarith [abs_le.mp error]
    have whole : bound ≤ count := Nat.lt_succ_iff.mp (by exact_mod_cast close)
    gcongr
  rcases le_or_gt unit last with higher | lower
  · obtain ⟨bound, inUnits⟩ := exists_units digits higher
    rw [inUnits] at above ⊢
    exact reaches bound above
  · have leading : (2 ^ 52 * 2 ^ unit : ℚ) ≤ count * 2 ^ unit := by
      exact_mod_cast reaches (2 ^ 52) (by exact_mod_cast atLeast)
    exact (lt_of_fits fits lower).le.trans leading

/-- A number which has few enough digits is kept. -/
theorem eq_of_eq (nearest : IsNearest number exact) (digits : ℕ) (last : ℤ)
    (fits : digits < 2 ^ 53) (same : exact = digits * 2 ^ last) : number = exact :=
  le_antisymm ((nearest.le_of_le digits last fits same.le).trans same.ge)
    (same.le.trans (nearest.ge_of_ge digits last fits same.ge))

/-- Rounding does not pass a whole number, as small ones are not rounded themselves. -/
theorem le_natCast (nearest : IsNearest number exact) {bound : ℕ} (fits : bound < 2 ^ 53)
    (below : exact ≤ bound) : number ≤ bound := by
  have whole : (bound * 2 ^ (0 : ℤ) : ℚ) = bound := by rw [zpow_zero, mul_one]
  exact (nearest.le_of_le bound 0 fits (below.trans_eq whole.symm)).trans_eq whole

end IsNearest

end BeliefRevision.Rounding
