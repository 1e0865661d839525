import BeliefRevision.Proofs.ClausalForm
import BeliefRevision.Proofs.Grouping

/-!
# Normalizing a normal form

Each pass leaves a formula as it is which has the form that the pass is there to reach. A
normal form has all of these forms at once, unless it is a constant, and so normalizing it
gives the same tree.

Grouping the chains of a normal form to the left keeps its form. What is read from its
text is therefore a normal form again, printed in the same way and with the same clauses,
and only the limit on the depth of a formula can keep it from being read.
-/

namespace BeliefRevision.Formula

variable {formula : Formula}

/-- Where no arrow occurs, none is written out. -/
theorem eliminateArrows_of_isArrowFree (arrowFree : formula.isArrowFree = true) :
    formula.eliminateArrows = formula := by
  induction formula with
  | top | bottom | atom _ => rfl
  | not operand inductionHypothesis => exact congrArg Formula.not (inductionHypothesis arrowFree)
  | binary connective left right leftHypothesis rightHypothesis =>
    cases connective with
    | implies | iff => cases arrowFree
    | and | or =>
      have both := Bool.and_eq_true_iff.mp arrowFree
      simp only [eliminateArrows, leftHypothesis both.1, rightHypothesis both.2]

/-- A formula without constants is not the true one. -/
theorem ne_top_of_isPlain (plain : formula.isPlain = true) : formula ≠ .top := by
  rintro rfl
  cases plain

/-- It is not the false one either. -/
theorem ne_bottom_of_isPlain (plain : formula.isPlain = true) : formula ≠ .bottom := by
  rintro rfl
  cases plain

/-- Where no constant occurs, none is folded. -/
theorem foldConstants_of_isPlain (plain : formula.isPlain = true) :
    formula.foldConstants = formula := by
  induction formula with
  | top | bottom => cases plain
  | atom _ => rfl
  | not operand inductionHypothesis =>
    have inside : operand.isPlain = true := plain
    rw [foldConstants, inductionHypothesis inside]
    exact foldNot.eq_3 _ (ne_top_of_isPlain inside) (ne_bottom_of_isPlain inside)
  | binary connective left right leftHypothesis rightHypothesis =>
    cases connective with
    | implies | iff => cases plain
    | and =>
      have both := Bool.and_eq_true_iff.mp plain
      rw [foldConstants, leftHypothesis both.1, rightHypothesis both.2]
      exact foldAnd.eq_5 _ _ (ne_bottom_of_isPlain both.1) (ne_top_of_isPlain both.1)
        (ne_bottom_of_isPlain both.2) (ne_top_of_isPlain both.2)
    | or =>
      have both := Bool.and_eq_true_iff.mp plain
      rw [foldConstants, leftHypothesis both.1, rightHypothesis both.2]
      exact foldOr.eq_5 _ _ (ne_top_of_isPlain both.1) (ne_bottom_of_isPlain both.1)
        (ne_top_of_isPlain both.2) (ne_bottom_of_isPlain both.2)

/-- Where negation stands at atoms alone, it is pushed no further. -/
theorem pushNegations_of_isNegationNormal (normal : formula.isNegationNormal = true) :
    formula.pushNegations = formula := by
  unfold pushNegations
  induction formula with
  | top | bottom | atom _ => rfl
  | not operand _ =>
    cases operand with
    | atom leaf => rfl
    | top | bottom | not _ | binary _ _ _ => cases normal
  | binary connective left right leftHypothesis rightHypothesis =>
    cases connective with
    | implies | iff => rfl
    | and | or =>
      have both := Bool.and_eq_true_iff.mp normal
      simp only [signed, if_true, leftHypothesis both.1, rightHypothesis both.2]

/-- A literal disjunction has no conjunction to be distributed over. -/
theorem distribute_of_isLiteralDisjunction (shape : formula.isLiteralDisjunction = true) :
    formula.distribute = formula := by
  fun_induction isLiteralDisjunction formula with
  | case1 left right leftHypothesis rightHypothesis =>
    have both := Bool.and_eq_true_iff.mp shape
    rw [distribute, leftHypothesis both.1, rightHypothesis both.2, disjoin.eq_2, disjoinRight.eq_2]
    · rintro first second rfl
      cases both.2
    · rintro first second rfl
      cases both.1
  | case2 formula notOr =>
    cases formula with
    | top | bottom | atom _ | not _ => rfl
    | binary _ _ _ => cases shape

/-- Where no disjunction has a conjunction below it, distribution has nothing to do. -/
theorem distribute_of_isConjunctive (shape : formula.isConjunctive = true) :
    formula.distribute = formula := by
  fun_induction isConjunctive formula with
  | case1 left right leftHypothesis rightHypothesis =>
    have both := Bool.and_eq_true_iff.mp shape
    rw [distribute, leftHypothesis both.1, rightHypothesis both.2]
  | case2 formula notAnd => exact distribute_of_isLiteralDisjunction shape

/-- A disjunction of literals negates atoms only. -/
theorem isNegationNormal_of_isLiteralDisjunction (shape : formula.isLiteralDisjunction = true) :
    formula.isNegationNormal = true := by
  fun_induction isLiteralDisjunction formula with
  | case1 left right leftHypothesis rightHypothesis =>
    have both := Bool.and_eq_true_iff.mp shape
    exact Bool.and_eq_true_iff.mpr ⟨leftHypothesis both.1, rightHypothesis both.2⟩
  | case2 formula notOr =>
    cases formula with
    | top | bottom | atom _ | not _ => exact shape
    | binary _ _ _ => cases shape

/-- So does a conjunction of such disjunctions. -/
theorem isNegationNormal_of_isConjunctive (shape : formula.isConjunctive = true) :
    formula.isNegationNormal = true := by
  fun_induction isConjunctive formula with
  | case1 left right leftHypothesis rightHypothesis =>
    have both := Bool.and_eq_true_iff.mp shape
    exact Bool.and_eq_true_iff.mpr ⟨leftHypothesis both.1, rightHypothesis both.2⟩
  | case2 formula _ => exact isNegationNormal_of_isLiteralDisjunction shape

/-- Literals hold no constant, and so neither does what is made of them. -/
theorem isPlain_of_isNegationNormal (normal : formula.isNegationNormal = true) :
    formula.isPlain = true := by
  induction formula with
  | top | bottom => cases normal
  | atom _ => rfl
  | not operand _ =>
    obtain ⟨leaf, rfl⟩ := exists_atom_of_literal? normal
    rfl
  | binary connective left right leftHypothesis rightHypothesis =>
    cases connective with
    | implies | iff => cases normal
    | and | or =>
      have both := Bool.and_eq_true_iff.mp normal
      exact Bool.and_eq_true_iff.mpr ⟨leftHypothesis both.1, rightHypothesis both.2⟩

/-- A plain formula has no arrows, as these are not plain. -/
theorem isArrowFree_of_isPlain (plain : formula.isPlain = true) : formula.isArrowFree = true := by
  induction formula with
  | top | bottom | atom _ => rfl
  | not operand inductionHypothesis => exact inductionHypothesis plain
  | binary connective left right leftHypothesis rightHypothesis =>
    cases connective with
    | implies | iff => cases plain
    | and | or =>
      have both := Bool.and_eq_true_iff.mp plain
      exact Bool.and_eq_true_iff.mpr ⟨leftHypothesis both.1, rightHypothesis both.2⟩

/-- A conjunction of disjunctions of literals meets what each pass establishes. -/
theorem cnf_of_isConjunctive (shape : formula.isConjunctive = true) : formula.cnf = formula := by
  have normal := isNegationNormal_of_isConjunctive shape
  have plain := isPlain_of_isNegationNormal normal
  rw [cnf, eliminateArrows_of_isArrowFree (isArrowFree_of_isPlain plain),
    foldConstants_of_isPlain plain, pushNegations_of_isNegationNormal normal,
    distribute_of_isConjunctive shape]

/-- A disjunction of literals stays one however it is grouped. -/
theorem isLiteralDisjunction_regrouped (formula : Formula) :
    formula.regrouped.isLiteralDisjunction = formula.isLiteralDisjunction := by
  simp [isLiteralDisjunction_eq_all, disjuncts_regrouped, List.all_map, Function.comp_def,
    literal?_regrouped]

/-- So does a conjunction of such disjunctions. -/
theorem isConjunctive_regrouped (formula : Formula) :
    formula.regrouped.isConjunctive = formula.isConjunctive := by
  simp [isConjunctive_eq_all, conjuncts_regrouped, List.all_map, Function.comp_def,
    isLiteralDisjunction_regrouped]

/-- The constants are their own normal forms too. -/
theorem cnf_of_shape (shape : formula = .top ∨ formula = .bottom ∨ formula.isConjunctive = true) :
    formula.cnf = formula := by
  rcases shape with rfl | rfl | shape
  · rfl
  · rfl
  · exact cnf_of_isConjunctive shape

/-- A normal form is its own normal form. -/
theorem cnf_cnf (formula : Formula) : formula.cnf.cnf = formula.cnf :=
  cnf_of_shape (cnf_shape formula)

/-- However the chains of a normal form are grouped, normalizing leaves them so. -/
theorem cnf_regrouped_cnf (formula : Formula) :
    formula.cnf.regrouped.cnf = formula.cnf.regrouped := by
  apply cnf_of_shape
  rw [isConjunctive_regrouped]
  rcases cnf_shape formula with isTop | isBottom | shape
  · exact .inl (congrArg regrouped isTop)
  · exact .inr (.inl (congrArg regrouped isBottom))
  · exact .inr (.inr shape)

/-- The printed normal form of a formula is its own normal form, unless it is too deep with
its chains grouped to the left. -/
theorem normalizeText_text_cnf (formula : Formula) :
    normalizeText formula.cnf.text =
      if formula.cnf.regrouped.depth ≤ depthLimit then .ok formula.cnf.text
      else .error .tooDeep := by
  by_cases shallow : formula.cnf.regrouped.depth ≤ depthLimit
  · have printed : formula.cnf.regrouped.text = formula.cnf.text :=
      formula.cnf.sameChains_regrouped.text_eq.symm
    simp only [normalizeText, parse_text_cnf, if_pos shallow, cnf_regrouped_cnf, printed]
  · simp only [normalizeText, parse_text_cnf, if_neg shallow]

/-- Normalizing a text prints the normal form of the formula which is parsed from it. -/
theorem normalizeText_eq_ok_iff {text printed : String} :
    normalizeText text = .ok printed ↔
      ∃ formula, parse text = .ok formula ∧ formula.cnf.text = printed := by
  unfold normalizeText
  cases parse text with
  | error cause => simp
  | ok formula => simp

/-- Normalizing a normal form changes nothing. Nor does normalizing its text, unless the text is
refused as too deep, and then it is refused in both of its readings: as a formula to normalize
and as clauses. Otherwise the clauses which are read are those of the normal form, in order. -/
theorem cnf_fixed :
    (∀ formula : Formula, formula.cnf.cnf = formula.cnf) ∧
      ∀ text printed, normalizeText text = .ok printed →
        ∃ formula set, parse text = .ok formula ∧ ClauseSet.ofFormula formula.cnf = .ok set ∧
          ((depthLimit < formula.cnf.regrouped.height ∧ normalizeText printed = .error .tooDeep ∧
              ClauseSet.parse printed = .error (.parse .tooDeep)) ∨
            (formula.cnf.regrouped.height ≤ depthLimit ∧ normalizeText printed = .ok printed ∧
              ClauseSet.parse printed = .ok set)) := by
  refine ⟨cnf_cnf, fun text printed normalized => ?_⟩
  obtain ⟨formula, parsed, rfl⟩ := normalizeText_eq_ok_iff.mp normalized
  refine ⟨formula, .ofNormalForm formula, parsed, ClauseSet.ofFormula_cnf formula, ?_⟩
  rw [normalizeText_text_cnf, ClauseSet.parse_text_cnf, depth_eq_height]
  by_cases shallow : formula.cnf.regrouped.height ≤ depthLimit
  · rw [if_pos shallow, if_pos shallow]
    exact .inr ⟨shallow, rfl, rfl⟩
  · rw [if_neg shallow, if_neg shallow]
    exact .inl ⟨Nat.lt_of_not_le shallow, rfl, rfl⟩

/-- Two conjunctions in a disjunction. -/
def pairsFormula : Formula :=
  .or (.and (.atom ⟨"W", by decide⟩) (.atom ⟨"X", by decide⟩))
    (.and (.atom ⟨"Y", by decide⟩) (.atom ⟨"Z", by decide⟩))

/-- The four clauses of this normal form are not grouped in the way they are read back. -/
theorem cnf_fixed_regrouped :
    normalizeText "(W∧X)∨(Y∧Z)" = .ok "(W∨Y)∧(W∨Z)∧(X∨Y)∧(X∨Z)" ∧
      ∃ formula set, parse "(W∧X)∨(Y∧Z)" = .ok formula ∧
        ClauseSet.ofFormula formula.cnf = .ok set ∧
        ((depthLimit < formula.cnf.regrouped.height ∧
            normalizeText "(W∨Y)∧(W∨Z)∧(X∨Y)∧(X∨Z)" = .error .tooDeep ∧
            ClauseSet.parse "(W∨Y)∧(W∨Z)∧(X∨Y)∧(X∨Z)" = .error (.parse .tooDeep)) ∨
          (formula.cnf.regrouped.height ≤ depthLimit ∧
            normalizeText "(W∨Y)∧(W∨Z)∧(X∨Y)∧(X∨Z)" = .ok "(W∨Y)∧(W∨Z)∧(X∨Y)∧(X∨Z)" ∧
            ClauseSet.parse "(W∨Y)∧(W∨Z)∧(X∨Y)∧(X∨Z)" = .ok set)) := by
  have parsed : parse "(W∧X)∨(Y∧Z)" = .ok pairsFormula := by cbv
  have printed : pairsFormula.cnf.text = "(W∨Y)∧(W∨Z)∧(X∨Y)∧(X∨Z)" := by decide
  have normalized := normalizeText_eq_ok_iff.mpr ⟨pairsFormula, parsed, printed⟩
  exact ⟨normalized, cnf_fixed.2 _ _ normalized⟩

end BeliefRevision.Formula
