import BeliefRevision.Proofs.CollectionOrder
import BeliefRevision.Proofs.FloatArithmetic

/-!
# The values of scores

A score is the normal number nearest to one divided by the width, and so wider beliefs have
smaller scores; a combined score is a sum which is rounded after each belief. Each rounding adds
an error, which is small beside the sum, and there is none where the widths are powers of two.

All of this holds of widths up to 2 ^ 52, which is as far as scores tell every two widths apart,
and of collections of no more beliefs than that.
-/

namespace BeliefRevision.Entrenchment

open Rounding

/-- Normal numbers are ordered by their values, although only their bits are compared. -/
theorem precedes_toFloat_iff (first second : Normal) :
    precedes first.toFloat second.toFloat = true ↔ first.value ≤ second.value := by
  rw [precedes, decide_eq_true_iff, Normal.toBits_le_toBits_iff]

/-- No belief of the base has a clause so wide that its score might be that of another width. -/
def Fits (base : Base) : Prop := ∀ belief ∈ base.beliefs, countedWidth belief ≤ 2 ^ 52

section Reciprocals

variable {width : ℕ}

/-- The reciprocal of a width which fits lies between that of the greatest such width and one. -/
theorem reciprocal_bounds (positive : 0 < width) (fits : width ≤ 2 ^ 52) :
    1 / 2 ^ 52 ≤ (1 / width : ℚ) ∧ (1 / width : ℚ) ≤ 1 := by
  have atLeast : (1 : ℚ) ≤ width := Nat.one_le_cast.mpr positive
  have atMost : (width : ℚ) ≤ 2 ^ 52 := by exact_mod_cast fits
  constructor
  · gcongr
  · exact (div_le_one₀ (by linarith)).mpr atLeast

/-- The reciprocal of a width which fits is computed as a normal number nearest to it. The width
itself is converted exactly. -/
theorem exists_reciprocal (positive : 0 < width) (fits : width ≤ 2 ^ 52) :
    ∃ score : Normal, 1.0 / width.toFloat = score.toFloat ∧ IsNearest score.value (1 / width) := by
  obtain ⟨divisor, converted, value⟩ := Normal.exists_toFloat positive (by omega)
  have bounds := reciprocal_bounds positive fits
  have inRange : InRange (Normal.one.value / divisor.value) := by
    rw [Normal.one_value, value]
    exact inRange_of_bounds (by linarith) (by linarith)
  obtain ⟨score, divided, nearest⟩ := Normal.one.exists_div divisor inRange
  rw [Normal.one_toFloat, ← converted] at divided
  rw [Normal.one_value, value] at nearest
  exact ⟨score, divided, nearest⟩

/-- Dividing by the greater width gives less, also after rounding: the two exact quotients are
further apart than the errors. -/
theorem reciprocal_lt {first second : ℕ} {firstScore secondScore : Normal} (positive : 0 < first)
    (less : first < second) (fits : second ≤ 2 ^ 52)
    (firstNearest : IsNearest firstScore.value (1 / first))
    (secondNearest : IsNearest secondScore.value (1 / second)) :
    secondScore.value < firstScore.value := by
  have firstError := abs_le.mp firstNearest.error_le
  have secondError := abs_le.mp secondNearest.error_le
  have apart : (1 / second : ℚ) * (1 + 1 / 2 ^ 53) < 1 / first * (1 - 1 / 2 ^ 53) := by
    have firstPositive : (0 : ℚ) < first := by exact_mod_cast positive
    have next : (first : ℚ) + 1 ≤ second := by exact_mod_cast less
    have bound : (second : ℚ) ≤ 2 ^ 52 := by exact_mod_cast fits
    rw [div_mul_eq_mul_div, div_mul_eq_mul_div, div_lt_div_iff₀ (by linarith) firstPositive]
    linarith
  linarith

end Reciprocals

/-- A belief without a literal counts as having one, so that no width is zero. -/
theorem countedWidth_pos (belief : Belief) : 0 < countedWidth belief :=
  Nat.le_max_left 1 _

/-- Widths which fit are told apart by the scores. -/
theorem distinguishes_of_fits {base : Base} (fits : Fits base) : Distinguishes base := by
  intro first firstMember second secondMember less
  obtain ⟨firstScore, firstDivided, firstNearest⟩ :=
    exists_reciprocal (countedWidth_pos first) (fits first firstMember)
  obtain ⟨secondScore, secondDivided, secondNearest⟩ :=
    exists_reciprocal (countedWidth_pos second) (fits second secondMember)
  rw [← Bool.not_eq_true, score_eq, score_eq, firstDivided, secondDivided, precedes_toFloat_iff,
    not_le]
  exact reciprocal_lt (countedWidth_pos first) less (fits second secondMember) firstNearest
    secondNearest

section Indices

variable {base : Base}

/-- The score at an index is the reciprocal of the width there, also where there is no belief. -/
theorem scoreAt_eq (base : Base) (index : ℕ) :
    scoreAt base index = 1.0 / (widthAt base index).toFloat := by
  rw [scoreAt, widthAt]
  cases base.get? index with
  | none => decide +kernel
  | some belief => exact score_eq belief

/-- The width at an index is never zero. -/
theorem widthAt_pos (base : Base) (index : ℕ) : 0 < widthAt base index := by
  rw [widthAt]
  cases base.get? index with
  | none => exact Nat.one_pos
  | some belief => exact countedWidth_pos belief

/-- Where all widths of the base fit, so does the one at any index. -/
theorem widthAt_le (fits : Fits base) (index : ℕ) : widthAt base index ≤ 2 ^ 52 := by
  rw [widthAt]
  cases found : base.get? index with
  | none => exact Nat.one_le_two_pow
  | some belief => exact fits belief (List.mem_of_getElem? found)

/-- The score at an index is a normal number nearest to the reciprocal of the width. -/
theorem exists_scoreAt (fits : Fits base) (index : ℕ) :
    ∃ score : Normal, scoreAt base index = score.toFloat ∧
      IsNearest score.value (1 / widthAt base index) := by
  rw [scoreAt_eq]
  exact exists_reciprocal (widthAt_pos base index) (widthAt_le fits index)

end Indices

/-- The sum of one divided by the width over the beliefs of a collection, without rounding. -/
def exactScore (base : Base) (collection : List ℕ) : ℚ :=
  (collection.map fun index => (1 / widthAt base index : ℚ)).sum

/-- The exact score of a single belief is the reciprocal of its width. -/
theorem exactScore_singleton (base : Base) (index : ℕ) :
    exactScore base [index] = 1 / widthAt base index := by
  simp [exactScore]

/-- A further belief adds its reciprocal to the exact score. -/
theorem exactScore_append (base : Base) (collection : List ℕ) (index : ℕ) :
    exactScore base (collection ++ [index]) =
      exactScore base collection + 1 / widthAt base index := by
  simp [exactScore]

/-- A further belief adds its score to the computed sum, in which later beliefs are added last. -/
theorem combinedScore_append (base : Base) (collection : List ℕ) (index : ℕ) :
    combinedScore base (collection ++ [index]) =
      combinedScore base collection + scoreAt base index :=
  List.foldl_append

/-- A sum of scores which is rounded after each of them. -/
inductive RoundedSum (base : Base) : List ℕ → ℚ → Prop
  | single {index : ℕ} {score : ℚ} (nearest : IsNearest score (1 / widthAt base index)) :
      RoundedSum base [index] score
  | add {rest : List ℕ} {index : ℕ} {sum score next : ℚ} (summed : RoundedSum base rest sum)
      (nearest : IsNearest score (1 / widthAt base index))
      (rounded : IsNearest next (sum + score)) : RoundedSum base (rest ++ [index]) next

/-- How far a computed sum of that many reciprocals may be from the exact sum. -/
structure Approximates (count : ℕ) (sum exact : ℚ) : Prop where
  atLeast : 1 / 2 ^ 53 ≤ sum
  atMost : sum ≤ count
  error : |sum - exact| ≤ count ^ 2 / 2 ^ 53

/-- A score by itself has been rounded once. -/
theorem approximates_reciprocal {width : ℕ} {score : ℚ} (positive : 0 < width)
    (fits : width ≤ 2 ^ 52) (nearest : IsNearest score (1 / width)) :
    Approximates 1 score (1 / width) := by
  obtain ⟨atLeast, atMost⟩ := reciprocal_bounds positive fits
  have error := nearest.error_le
  refine ⟨?_, ?_, ?_⟩
  · linarith [abs_le.mp error]
  · exact nearest.le_natCast (by norm_num) (by rwa [Nat.cast_one])
  · push_cast
    linarith

namespace Approximates

variable {count : ℕ} {sum score next exact reciprocal : ℚ}

/-- A sum with one more score is well inside the range, and so is rounded to a normal number. -/
theorem inRange (approximated : Approximates count sum exact)
    (single : Approximates 1 score reciprocal) (few : count + 1 ≤ 2 ^ 52) :
    InRange (sum + score) := by
  have bound : (count + 1 : ℚ) ≤ 2 ^ 52 := by exact_mod_cast few
  have scoreAtMost := single.atMost
  rw [Nat.cast_one] at scoreAtMost
  apply inRange_of_bounds <;> linarith [approximated.atLeast, approximated.atMost, single.atLeast]

/-- Adding one more score rounds the sum once more. -/
theorem add (approximated : Approximates count sum exact)
    (single : Approximates 1 score reciprocal) (positive : 0 < count) (few : count + 1 ≤ 2 ^ 52)
    (rounded : IsNearest next (sum + score)) :
    Approximates (count + 1) next (exact + reciprocal) := by
  obtain ⟨atLeast, atMost, error⟩ := approximated
  obtain ⟨scoreAtLeast, scoreAtMost, scoreError⟩ := single
  have nextError := rounded.error_le
  have exactAtMost : sum + score ≤ (count + 1 : ℕ) := by
    rw [Nat.cast_one] at scoreAtMost
    push_cast
    linarith
  refine ⟨?_, ?_, ?_⟩
  · linarith [abs_le.mp nextError]
  · exact rounded.le_natCast (by omega) exactAtMost
  · have enough : (1 : ℚ) ≤ count := Nat.one_le_cast.mpr positive
    calc |next - (exact + reciprocal)|
        = |next - (sum + score) + (sum - exact) + (score - reciprocal)| := by ring_nf
      _ ≤ |next - (sum + score)| + |sum - exact| + |score - reciprocal| := abs_add_three ..
      _ ≤ (count + 1 : ℕ) / 2 ^ 53 + count ^ 2 / 2 ^ 53 + (1 : ℕ) ^ 2 / 2 ^ 53 := by
          gcongr
          exact nextError.trans (by gcongr)
      _ ≤ (count + 1 : ℕ) ^ 2 / 2 ^ 53 := by
          push_cast
          linarith

end Approximates

section Combining

variable {base : Base} {collection : List ℕ} {sum : ℚ}

/-- A rounded sum has at least one term. -/
theorem RoundedSum.length_pos (summed : RoundedSum base collection sum) :
    0 < collection.length := by
  cases summed <;> simp

/-- The error of a sum is bounded by the number of its terms. -/
theorem RoundedSum.approximates (summed : RoundedSum base collection sum) (fits : Fits base)
    (few : collection.length ≤ 2 ^ 52) :
    Approximates collection.length sum (exactScore base collection) := by
  induction summed with
  | @single index score nearest =>
    rw [exactScore_singleton]
    exact approximates_reciprocal (widthAt_pos base index) (widthAt_le fits index) nearest
  | @add rest index sum score next summed nearest rounded inductionHypothesis =>
    rw [List.length_append] at few ⊢
    rw [exactScore_append]
    have single :=
      approximates_reciprocal (widthAt_pos base index) (widthAt_le fits index) nearest
    exact (inductionHypothesis (by omega)).add single summed.length_pos few rounded

/-- A combined score is the sum of the scores, rounded after each. -/
theorem exists_combinedScore (fits : Fits base) (nonempty : collection ≠ [])
    (few : collection.length ≤ 2 ^ 52) :
    ∃ sum : Normal, combinedScore base collection = sum.toFloat ∧
      RoundedSum base collection sum.value := by
  induction collection using List.reverseRecOn with
  | nil => exact absurd rfl nonempty
  | append_singleton rest index inductionHypothesis =>
    obtain ⟨score, computed, nearest⟩ := exists_scoreAt fits index
    rw [combinedScore_append, computed]
    by_cases first : rest = []
    · subst first
      exact ⟨score, Normal.zero_add score, .single nearest⟩
    · rw [List.length_append] at few
      obtain ⟨sum, summed, rounded⟩ := inductionHypothesis first (by omega)
      have approximated := rounded.approximates fits (by omega)
      have single :=
        approximates_reciprocal (widthAt_pos base index) (widthAt_le fits index) nearest
      obtain ⟨next, added, nextNearest⟩ :=
        sum.exists_add score (approximated.inRange single few)
      exact ⟨next, (congrArg (· + score.toFloat) summed).trans added,
        .add rounded nearest nextNearest⟩

end Combining

section Multiples

variable {base : Base} {multiple : ℕ}

/-- A common multiple of the widths is one of the width at any index. -/
theorem widthAt_dvd (common : ∀ belief ∈ base.beliefs, countedWidth belief ∣ multiple)
    (index : ℕ) : widthAt base index ∣ multiple := by
  rw [widthAt]
  cases found : base.get? index with
  | none => exact one_dvd multiple
  | some belief => exact common belief (List.mem_of_getElem? found)

/-- With a common multiple of the widths as the denominator, exact scores are fractions. -/
theorem exists_exactScore (positive : 0 < multiple)
    (common : ∀ belief ∈ base.beliefs, countedWidth belief ∣ multiple) (collection : List ℕ) :
    ∃ count ≤ collection.length * multiple, exactScore base collection = count / multiple := by
  induction collection with
  | nil => exact ⟨0, by simp, by simp [exactScore]⟩
  | cons index rest inductionHypothesis =>
    obtain ⟨count, bound, same⟩ := inductionHypothesis
    obtain ⟨times, product⟩ := widthAt_dvd common index
    have widthPositive := widthAt_pos base index
    have atMost : times ≤ multiple := product ▸ Nat.le_mul_of_pos_left times widthPositive
    refine ⟨times + count, by rw [List.length_cons, Nat.succ_mul]; omega, ?_⟩
    have reciprocal : (1 / widthAt base index : ℚ) = times / multiple := by
      have : (0 : ℚ) < multiple := by exact_mod_cast positive
      have : (0 : ℚ) < widthAt base index := by exact_mod_cast widthPositive
      rw [div_eq_div_iff (by positivity) (by positivity), product]
      push_cast
      ring
    change (1 / widthAt base index : ℚ) + exactScore base rest = _
    rw [reciprocal, same, ← add_div]
    push_cast
    rfl

/-- Where the widths are powers of two, rounding keeps an exact score. -/
theorem eq_exactScore_of_isNearest {exponent : ℕ}
    (common : ∀ belief ∈ base.beliefs, countedWidth belief ∣ 2 ^ exponent) {collection : List ℕ}
    (short : collection.length * 2 ^ exponent < 2 ^ 53) {number : ℚ}
    (nearest : IsNearest number (exactScore base collection)) :
    number = exactScore base collection := by
  obtain ⟨count, bound, same⟩ := exists_exactScore (by positivity) common collection
  refine nearest.eq_of_eq count (-exponent) (by omega) ?_
  rw [same, zpow_neg, zpow_natCast]
  push_cast
  rfl

/-- Where all widths divide a power of two and the sum is short, every partial sum is a normal
number, and nothing is ever rounded. -/
theorem RoundedSum.eq_exactScore {collection : List ℕ} {sum : ℚ}
    (summed : RoundedSum base collection sum) {exponent : ℕ}
    (common : ∀ belief ∈ base.beliefs, countedWidth belief ∣ 2 ^ exponent)
    (short : collection.length * 2 ^ exponent < 2 ^ 53) : sum = exactScore base collection := by
  induction summed with
  | @single index score nearest =>
    exact eq_exactScore_of_isNearest common short (by rwa [exactScore_singleton])
  | @add rest index sum score next summed nearest rounded inductionHypothesis =>
    have shorter : rest.length * 2 ^ exponent < 2 ^ 53 :=
      (Nat.mul_le_mul_right _ (by simp)).trans_lt short
    have one : [index].length * 2 ^ exponent < 2 ^ 53 :=
      (Nat.mul_le_mul_right _ (by simp)).trans_lt short
    have single : score = exactScore base [index] :=
      eq_exactScore_of_isNearest common one (by rwa [exactScore_singleton])
    rw [inductionHypothesis shorter, single, exactScore_singleton, ← exactScore_append] at rounded
    exact eq_exactScore_of_isNearest common short rounded

end Multiples

end BeliefRevision.Entrenchment
