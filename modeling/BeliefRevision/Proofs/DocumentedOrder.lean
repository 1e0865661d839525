import BeliefRevision.Proofs.ScoreValues

/-!
# The order which is promised

Collections are to be tried by the exact sums of their scores, the least sum first, and equal
sums in lexicographic order of places. What is compared are the rounded sums. Where two exact
sums differ by more than their errors the rounded sums differ in the same way; but two sums which
are equal may be rounded to different numbers, and then the later collection can come first.

So the promise is kept where no sum is rounded, as with widths which are powers of two, and by
single beliefs; in between it is kept but for the order of equal sums.
-/

namespace BeliefRevision.Entrenchment

/-- The first collection comes before the second by what is promised. -/
def Documented (base : Base) (first second : List ℕ) : Prop :=
  exactScore base first < exactScore base second ∨
    exactScore base first = exactScore base second ∧ places base first < places base second

/-- Rounding has kept the order of those which have one exact score. -/
def KeepsTies (base : Base) (listed : List (List ℕ)) : Prop :=
  ∀ first ∈ listed, ∀ second ∈ listed, exactScore base first = exactScore base second →
    places base first < places base second →
      precedes (combinedScore base first) (combinedScore base second) = true

/-- In a list which is in order, one of two different members comes before the other. -/
theorem or_of_pairwise {α : Type} {before : α → α → Prop} {values : List α}
    (ordered : values.Pairwise before) {first second : α} (firstMember : first ∈ values)
    (secondMember : second ∈ values) (different : first ≠ second) :
    before first second ∨ before second first := by
  have either : values.Pairwise fun first second => before first second ∨ before second first :=
    ordered.imp Or.inl
  have : Std.Symm fun first second => before first second ∨ before second first :=
    ⟨fun _ _ => Or.symm⟩
  exact either.forall firstMember secondMember different

section Collections

variable {base : Base} {size : ℕ} {first second : List ℕ}

/-- Of two different collections one comes first by the places of its indices. -/
theorem places_lt_or_lt (firstTried : first ∈ collections base size)
    (secondTried : second ∈ collections base size) (different : first ≠ second) :
    places base first < places base second ∨ places base second < places base first :=
  or_of_pairwise
    ((selections_pairwise (removalOrder_pairwise_place base) size).imp places_lt_of_lex)
    (mem_selections.mpr (mem_collections.mp firstTried))
    (mem_selections.mpr (mem_collections.mp secondTried)) different

/-- What is promised is kept only where rounding keeps the order of ties. -/
theorem keepsTies_of_documented
    (documented : (collections base size).Pairwise (Documented base)) :
    KeepsTies base (collections base size) := by
  intro first firstTried second secondTried same earlier
  have different : first ≠ second := by
    rintro rfl
    exact lt_irrefl _ earlier
  have both := documented.and (collections_pairwise base size)
  rcases or_of_pairwise both firstTried secondTried different with
    ⟨_, ascending, _⟩ | ⟨less | ⟨_, later⟩, _⟩
  · exact ascending
  · exact absurd same less.ne'
  · exact absurd later (lt_asymm earlier)

/-- Where scores are in the order of exact scores, ties are all that matters. -/
theorem documented_iff (faithful : (collections base size).Pairwise fun first second =>
      exactScore base first ≤ exactScore base second) :
    (collections base size).Pairwise (Documented base) ↔
      KeepsTies base (collections base size) := by
  refine ⟨keepsTies_of_documented, fun keeps => ?_⟩
  refine (faithful.and (collections_pairwise base size)).imp_of_mem ?_
  intro first second firstTried secondTried ⟨notAbove, _, tie⟩
  rcases notAbove.lt_or_eq with less | same
  · exact .inl less
  · refine .inr ⟨same, ?_⟩
    by_cases equal : first = second
    · subst equal
      exact tie (precedes_refl _)
    · rcases places_lt_or_lt firstTried secondTried equal with earlier | later
      · exact earlier
      · exact tie (keeps second secondTried first firstTried same.symm later)

/-- A collection of some size has so many indices. -/
theorem length_of_mem_collections (tried : first ∈ collections base size) :
    first.length = size :=
  (mem_collections.mp tried).2

/-- The combined score of a collection is a normal number, and is what the exact sum becomes when
each addition is rounded. -/
theorem exists_combinedScore_of_mem (fits : Fits base) (few : size ≤ 2 ^ 52) (some : 0 < size)
    (tried : first ∈ collections base size) :
    ∃ sum : Normal, combinedScore base first = sum.toFloat ∧ RoundedSum base first sum.value := by
  have length := length_of_mem_collections tried
  exact exists_combinedScore fits (List.ne_nil_of_length_pos (by omega)) (by omega)

/-- What is computed is as near to the exact scores as the errors allow. -/
theorem exactScore_le_of_precedes (fits : Fits base) (few : size ≤ 2 ^ 52)
    (firstTried : first ∈ collections base size) (secondTried : second ∈ collections base size)
    (ascending : precedes (combinedScore base first) (combinedScore base second) = true) :
    exactScore base first ≤ exactScore base second + size ^ 2 / 2 ^ 52 := by
  rcases Nat.eq_zero_or_pos size with rfl | some
  · rw [collections_zero, List.mem_singleton] at firstTried secondTried
    rw [firstTried, secondTried]
    simp
  · obtain ⟨firstSum, firstSummed, firstRounded⟩ :=
      exists_combinedScore_of_mem fits few some firstTried
    obtain ⟨secondSum, secondSummed, secondRounded⟩ :=
      exists_combinedScore_of_mem fits few some secondTried
    rw [firstSummed, secondSummed, precedes_toFloat_iff] at ascending
    have firstLength := length_of_mem_collections firstTried
    have secondLength := length_of_mem_collections secondTried
    have firstError := (firstRounded.approximates fits (by omega)).error
    have secondError := (secondRounded.approximates fits (by omega)).error
    rw [firstLength] at firstError
    rw [secondLength] at secondError
    linarith [abs_le.mp firstError, abs_le.mp secondError]

/-- Exact scores which are different differ by more than the errors, where there are few beliefs
in a collection for the common multiple of the widths. -/
theorem exactScore_le_of_common {multiple : ℕ} (positive : 0 < multiple)
    (common : ∀ belief ∈ base.beliefs, countedWidth belief ∣ multiple)
    (small : multiple * size ^ 2 < 2 ^ 52)
    (near : exactScore base first ≤ exactScore base second + size ^ 2 / 2 ^ 52) :
    exactScore base first ≤ exactScore base second := by
  obtain ⟨firstCount, -, firstSame⟩ := exists_exactScore positive common first
  obtain ⟨secondCount, -, secondSame⟩ := exists_exactScore positive common second
  have denominator : (0 : ℚ) < multiple := by exact_mod_cast positive
  have errors : (size ^ 2 / 2 ^ 52 : ℚ) < 1 / multiple := by
    rw [div_lt_div_iff₀ (by positivity) denominator, one_mul, mul_comm]
    exact_mod_cast small
  rw [firstSame, secondSame] at near ⊢
  have less : (firstCount : ℚ) < secondCount + 1 := by
    have := near.trans_lt (add_lt_add_right errors _)
    rwa [← add_div, div_lt_div_iff_of_pos_right denominator] at this
  have whole : firstCount ≤ secondCount := Nat.lt_succ_iff.mp (by exact_mod_cast less)
  gcongr

/-- Where no sum is rounded, the scores are in the order of the exact scores. -/
theorem precedes_iff_of_powers {exponent : ℕ}
    (common : ∀ belief ∈ base.beliefs, countedWidth belief ∣ 2 ^ exponent)
    (fits : Fits base) (few : size ≤ 2 ^ 52) (short : size * 2 ^ exponent < 2 ^ 53)
    (firstTried : first ∈ collections base size) (secondTried : second ∈ collections base size) :
    precedes (combinedScore base first) (combinedScore base second) = true ↔
      exactScore base first ≤ exactScore base second := by
  rcases Nat.eq_zero_or_pos size with rfl | some
  · rw [collections_zero, List.mem_singleton] at firstTried secondTried
    rw [firstTried, secondTried]
    exact iff_of_true (precedes_refl _) le_rfl
  · obtain ⟨firstSum, firstSummed, firstRounded⟩ :=
      exists_combinedScore_of_mem fits few some firstTried
    obtain ⟨secondSum, secondSummed, secondRounded⟩ :=
      exists_combinedScore_of_mem fits few some secondTried
    have firstLength := length_of_mem_collections firstTried
    have secondLength := length_of_mem_collections secondTried
    rw [firstSummed, secondSummed, precedes_toFloat_iff,
      firstRounded.eq_exactScore common (by rwa [firstLength]),
      secondRounded.eq_exactScore common (by rwa [secondLength])]

end Collections

section Singletons

variable {base : Base}

/-- A belief by itself has its own score. -/
theorem combinedScore_singleton (fits : Fits base) (index : ℕ) :
    combinedScore base [index] = scoreAt base index := by
  obtain ⟨score, computed, -⟩ := exists_scoreAt fits index
  change 0.0 + scoreAt base index = _
  rw [computed, score.zero_add]

/-- For single beliefs the order of the rounded scores is that of the exact ones, as different
widths have different scores. -/
theorem exactScore_le_of_precedes_singleton (fits : Fits base) (index other : ℕ)
    (ascending : precedes (scoreAt base index) (scoreAt base other) = true) :
    exactScore base [index] ≤ exactScore base [other] := by
  obtain ⟨score, computed, nearest⟩ := exists_scoreAt fits index
  obtain ⟨otherScore, otherComputed, otherNearest⟩ := exists_scoreAt fits other
  rw [computed, otherComputed, precedes_toFloat_iff] at ascending
  have wider : widthAt base other ≤ widthAt base index := by
    by_contra narrower
    exact absurd ascending (not_le.mpr (reciprocal_lt (widthAt_pos base index)
      (not_le.mp narrower) (widthAt_le fits other) nearest otherNearest))
  have positive : (0 : ℚ) < widthAt base other := by exact_mod_cast widthAt_pos base other
  rw [exactScore_singleton, exactScore_singleton]
  gcongr

/-- Single beliefs are tried in the documented order, ties included. -/
theorem documented_singletons (fits : Fits base) :
    (collections base 1).Pairwise (Documented base) := by
  have singleton : ∀ collection ∈ collections base 1, ∃ index, collection = [index] :=
    fun collection tried => List.length_eq_one_iff.mp (length_of_mem_collections tried)
  refine (documented_iff ?_).mpr ?_
  · refine (collections_pairwise base 1).imp_of_mem ?_
    intro first second firstTried secondTried ⟨ascending, _⟩
    obtain ⟨index, rfl⟩ := singleton first firstTried
    obtain ⟨other, rfl⟩ := singleton second secondTried
    rw [combinedScore_singleton fits, combinedScore_singleton fits] at ascending
    exact exactScore_le_of_precedes_singleton fits index other ascending
  · intro first firstTried second secondTried same _
    obtain ⟨index, rfl⟩ := singleton first firstTried
    obtain ⟨other, rfl⟩ := singleton second secondTried
    rw [exactScore_singleton, exactScore_singleton, one_div, one_div, inv_inj, Nat.cast_inj] at same
    rw [combinedScore_singleton fits, combinedScore_singleton fits, scoreAt_eq, scoreAt_eq, same]
    exact precedes_refl _

end Singletons

/-- How far the order of the collections of a size is the one which is promised. -/
structure OrderKept (base : Base) (size : ℕ) : Prop where
  /-- No collection comes before one whose exact score is less by more than the errors. -/
  near : (collections base size).Pairwise fun first second =>
    exactScore base first ≤ exactScore base second + size ^ 2 / 2 ^ 52
  /-- With a small common multiple of the widths, a smaller exact score comes first, and the
  promise is kept exactly where rounding keeps the order of ties. -/
  common : ∀ multiple, 0 < multiple → (∀ belief ∈ base.beliefs, countedWidth belief ∣ multiple) →
    multiple * size ^ 2 < 2 ^ 52 →
      ((collections base size).Pairwise fun first second =>
        exactScore base first ≤ exactScore base second) ∧
      ((collections base size).Pairwise (Documented base) ↔
        KeepsTies base (collections base size))
  /-- With widths which are powers of two, the promise is kept. -/
  powers : ∀ exponent, (∀ belief ∈ base.beliefs, countedWidth belief ∣ 2 ^ exponent) →
    size * 2 ^ exponent < 2 ^ 53 → (collections base size).Pairwise (Documented base)
  /-- Single beliefs are tried as promised. -/
  single : size ≤ 1 → (collections base size).Pairwise (Documented base)

/-- The promised order is kept up to the errors of rounding. -/
theorem collections_documented (base : Base) (size : ℕ) (fits : Fits base)
    (few : size ≤ 2 ^ 52) : OrderKept base size where
  near := (collections_pairwise base size).imp_of_mem fun firstTried secondTried ascending =>
    exactScore_le_of_precedes fits few firstTried secondTried ascending.1
  common := by
    intro multiple positive common small
    have faithful : (collections base size).Pairwise fun first second =>
        exactScore base first ≤ exactScore base second :=
      (collections_pairwise base size).imp_of_mem fun firstTried secondTried ascending =>
        exactScore_le_of_common positive common small
          (exactScore_le_of_precedes fits few firstTried secondTried ascending.1)
    exact ⟨faithful, documented_iff faithful⟩
  powers := by
    intro exponent common short
    refine (documented_iff ?_).mpr ?_
    · refine (collections_pairwise base size).imp_of_mem ?_
      intro first second firstTried secondTried ⟨ascending, _⟩
      exact (precedes_iff_of_powers common fits few short firstTried secondTried).mp ascending
    · intro first firstTried second secondTried same _
      exact (precedes_iff_of_powers common fits few short firstTried secondTried).mpr same.le
  single := by
    intro one
    rcases Nat.le_one_iff_eq_zero_or_eq_one.mp one with rfl | rfl
    · rw [collections_zero]
      exact List.pairwise_singleton _ _
    · exact documented_singletons fits

section Ties

/-- The letter at the place in the alphabet, as an atom. -/
def letter (place : Fin 26) : Atom :=
  ⟨String.singleton (Char.ofNat (65 + place)), by decide +revert⟩

/-- One of the letters from the first to the one at the place. -/
def oneOf : ℕ → Formula
  | 0 => .atom (letter 0)
  | place + 1 => .or (oneOf place) (.atom (letter (.ofNat 26 (place + 1))))

/-- Beliefs of twelve, four, three and two literals: the first and the last together are held as
firmly as the two between them, as 1 / 12 + 1 / 2 = 1 / 4 + 1 / 3. -/
def tiedBase : Base :=
  ⟨[.ofNormalForm "A∨B∨C∨D∨E∨F∨G∨H∨I∨J∨K∨L" (oneOf 11), .ofNormalForm "A∨B∨C∨D" (oneOf 3),
    .ofNormalForm "A∨B∨C" (oneOf 2), .ofNormalForm "A∨B" (oneOf 1)]⟩

/-- The widths are small and the pairs are few, so the order is kept as far as it is in general.
What is not promised of sums which tie does not hold here. -/
theorem collections_documented_tied : Fits tiedBase ∧ 2 ≤ 2 ^ 52 ∧ OrderKept tiedBase 2 := by
  have fits : Fits tiedBase := by
    unfold Fits
    decide +kernel
  exact ⟨fits, by decide, collections_documented tiedBase 2 fits (by decide)⟩

/-- The widest belief is removed first, which here is the first of the base. -/
theorem removalOrder_tiedBase : removalOrder tiedBase = [0, 1, 2, 3] := by
  rw [removalOrder, sortByScore_eq]
  exact List.mergeSort_of_pairwise (by decide +kernel)

/-- The two sums are equal, but they are rounded to different numbers, and so the two beliefs in
the middle are tried before the first and the last. -/
theorem tiedBase_not_documented :
    (["A∨B∨C∨D∨E∨F∨G∨H∨I∨J∨K∨L", "A∨B∨C∨D", "A∨B∨C", "A∨B"].mapM Belief.ofText =
        .ok tiedBase.beliefs) ∧
      ¬(collections tiedBase 2).Pairwise (Documented tiedBase) := by
  refine ⟨by cbv, fun documented => ?_⟩
  have outer : [0, 3] ∈ collections tiedBase 2 := by
    rw [mem_collections, removalOrder_tiedBase]
    decide
  have inner : [1, 2] ∈ collections tiedBase 2 := by
    rw [mem_collections, removalOrder_tiedBase]
    decide
  have same : exactScore tiedBase [0, 3] = exactScore tiedBase [1, 2] := by decide +kernel
  have earlier : places tiedBase [0, 3] < places tiedBase [1, 2] := by
    rw [places, places, removalOrder_tiedBase]
    decide
  have ascending := keepsTies_of_documented documented [0, 3] outer [1, 2] inner same earlier
  have descending : precedes (combinedScore tiedBase [0, 3]) (combinedScore tiedBase [1, 2]) =
      false := by decide +kernel
  rw [descending] at ascending
  cases ascending

end Ties

end BeliefRevision.Entrenchment
