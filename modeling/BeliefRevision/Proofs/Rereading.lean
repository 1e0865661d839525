import BeliefRevision.Proofs.ClauseReading
import BeliefRevision.Proofs.Printing

/-!
# Reading a normal form again

Grouping a chain to the left keeps its operands and their order, and so a formula is
read as the same clauses however its chains are grouped. A normal form is printed with
little nesting. Its clauses are therefore read off its text again, unless the printed
chains are longer than a formula may be deep.
-/

namespace BeliefRevision

namespace Formula

/-- The operands of the chain of the connective at the top of the formula. -/
def chainOperands (connective : Connective) : Formula → List Formula
  | .binary other left right =>
    if other = connective then chainOperands connective left ++ chainOperands connective right
    else [.binary other left right]
  | formula => [formula]

/-- A listing which joins the lists of both operands of the connective, and lists by itself what
has another root, lists the operands of the chain. -/
theorem eq_chainOperands {connective : Connective} {listing : Formula → List Formula}
    (joins : ∀ left right, listing (.binary connective left right) = listing left ++ listing right)
    (alone : ∀ formula, (∀ left right, formula = .binary connective left right → False) →
      listing formula = [formula])
    (formula : Formula) : listing formula = formula.chainOperands connective := by
  induction formula with
  | top | bottom | atom _ | not _ _ => exact alone _ nofun
  | binary root left right leftHypothesis rightHypothesis =>
    by_cases same : root = connective
    · subst same
      rw [joins, leftHypothesis, rightHypothesis, chainOperands, if_pos rfl]
    · rw [chainOperands, if_neg same]
      apply alone
      rintro _ _ ⟨⟩
      exact same rfl

/-- Conjuncts are the operands of a chain of conjunctions. -/
theorem conjuncts_eq (formula : Formula) : formula.conjuncts = formula.chainOperands .and :=
  eq_chainOperands (fun _ _ => rfl) conjuncts.eq_2 formula

/-- Disjuncts are the operands of a chain of disjunctions. -/
theorem disjuncts_eq (formula : Formula) : formula.disjuncts = formula.chainOperands .or :=
  eq_chainOperands (fun _ _ => rfl) disjuncts.eq_2 formula

/-- What is no chain of the connective is one operand. -/
theorem chainOperands_of_precedence_ne {connective : Connective} {formula : Formula}
    (other : formula.precedence ≠ connective.precedence) :
    formula.chainOperands connective = [formula] := by
  cases formula with
  | top | bottom | atom _ | not _ => rfl
  | binary root left right =>
    refine if_neg ?_
    rintro rfl
    exact other rfl

/-- Grafting puts the operands of the second formula behind those of the first. -/
theorem chainOperands_graft (connective : Connective) (left right : Formula) :
    (graft connective left right).chainOperands connective =
      left.chainOperands connective ++ right.chainOperands connective := by
  fun_induction graft connective left right with
  | case1 first second inductionHypothesis =>
    rw [chainOperands, if_pos rfl, inductionHypothesis, List.append_assoc]
    rw [chainOperands.eq_1 connective connective first second, if_pos rfl]
  | case2 other first second notSame =>
    rw [chainOperands, if_pos rfl]
  | case3 right notBinary =>
    rw [chainOperands, if_pos rfl]

/-- Grouping to the left regroups each operand and keeps their order. -/
theorem chainOperands_regrouped {connective : Connective}
    (groupsLeft : connective.groupsRight = false) (formula : Formula) :
    formula.regrouped.chainOperands connective =
      (formula.chainOperands connective).map regrouped := by
  induction formula with
  | top | bottom | atom _ | not _ _ => rfl
  | binary root left right leftHypothesis rightHypothesis =>
    by_cases same : root = connective
    · subst same
      simp only [regrouped, groupsLeft, Bool.false_eq_true, if_false, chainOperands_graft,
        leftHypothesis, rightHypothesis, chainOperands, if_true, List.map_append]
    · have other : (binary root left right).precedence ≠ connective.precedence := by
        intro samePrecedence
        exact same (Connective.eq_of_precedence_eq samePrecedence)
      have otherRegrouped :
          (binary root left right).regrouped.precedence ≠ connective.precedence := by
        rw [precedence_regrouped]
        exact other
      rw [chainOperands_of_precedence_ne other, chainOperands_of_precedence_ne otherRegrouped]
      rfl

/-- A compound formula keeps its connective. -/
theorem exists_regrouped_binary (connective : Connective) (left right : Formula) :
    ∃ first second, (binary connective left right).regrouped = .binary connective first second := by
  unfold regrouped
  split
  · exact ⟨_, _, rfl⟩
  · unfold graft
    split
    · split
      · exact ⟨_, _, rfl⟩
      · exact ⟨_, _, rfl⟩
    · exact ⟨_, _, rfl⟩

/-- Regrouping finds and makes no literal, as literals have no chains. -/
theorem literal?_regrouped (formula : Formula) : formula.regrouped.literal? = formula.literal? := by
  cases formula with
  | top | bottom | atom _ => rfl
  | not operand =>
    cases operand with
    | top | bottom | atom _ | not _ => rfl
    | binary connective left right =>
      obtain ⟨first, second, grouped⟩ := exists_regrouped_binary connective left right
      rw [regrouped, grouped]
      rfl
  | binary connective left right =>
    obtain ⟨first, second, grouped⟩ := exists_regrouped_binary connective left right
    rw [grouped]
    rfl

/-- Grouping changes nothing into a constant or an atom. -/
theorem regrouped_eq_iff {formula leaf : Formula} (atomic : leaf.precedence = .atomic) :
    formula.regrouped = leaf ↔ formula = leaf := by
  constructor
  · intro same
    have precedence : formula.precedence = .atomic := by
      rw [← precedence_regrouped, same, atomic]
    cases formula with
    | top | bottom | atom _ => exact same
    | not _ => cases precedence
    | binary connective _ _ => cases connective <;> cases precedence
  · rintro rfl
    cases formula with
    | top | bottom | atom _ => rfl
    | not _ => cases atomic
    | binary connective _ _ => cases connective <;> cases atomic

/-- Regrouping finds and makes no leaf either. -/
theorem isLeaf_regrouped (formula : Formula) : formula.regrouped.isLeaf = formula.isLeaf := by
  rw [Bool.eq_iff_iff]
  simp only [isLeaf, Bool.or_eq_true, beq_iff_eq, @regrouped_eq_iff formula .top rfl,
    @regrouped_eq_iff formula .bottom rfl, literal?_regrouped]

/-- A regrouped formula has the same disjuncts in the same order, each of them regrouped. -/
theorem disjuncts_regrouped (formula : Formula) :
    formula.regrouped.disjuncts = formula.disjuncts.map regrouped := by
  rw [disjuncts_eq, disjuncts_eq, chainOperands_regrouped rfl]

/-- So it is with its conjuncts. -/
theorem conjuncts_regrouped (formula : Formula) :
    formula.regrouped.conjuncts = formula.conjuncts.map regrouped := by
  rw [conjuncts_eq, conjuncts_eq, chainOperands_regrouped rfl]

/-- A disjunction has the same clause however it is grouped. -/
theorem clause?_regrouped (formula : Formula) : formula.regrouped.clause? = formula.clause? := by
  have leaves : formula.regrouped.disjuncts.all isLeaf = formula.disjuncts.all isLeaf := by
    simp [disjuncts_regrouped, List.all_map, Function.comp_def, isLeaf_regrouped]
  have hasTop : formula.regrouped.disjuncts.contains .top = formula.disjuncts.contains .top := by
    have sameTop (leaf : Formula) : leaf.regrouped = .top ↔ leaf = .top := regrouped_eq_iff rfl
    rw [Bool.eq_iff_iff]
    simp [disjuncts_regrouped, sameTop]
  have literals : formula.regrouped.disjuncts.filterMap literal? =
      formula.disjuncts.filterMap literal? := by
    simp [disjuncts_regrouped, List.filterMap_map, literal?_regrouped]
  simp only [clause?, leaves, hasTop, literals]

/-- In a disjunction of literals nothing stands in parentheses. -/
theorem nesting_isLiteralDisjunction_le {formula : Formula}
    (shape : formula.isLiteralDisjunction = true) :
    formula.nesting ≤ 1 ∧ Precedence.or.rank ≤ formula.precedence.rank := by
  fun_induction isLiteralDisjunction formula with
  | case1 left right leftHypothesis rightHypothesis =>
    rw [Bool.and_eq_true] at shape
    obtain ⟨leftNesting, leftTight⟩ := leftHypothesis shape.1
    obtain ⟨rightNesting, rightTight⟩ := rightHypothesis shape.2
    refine ⟨?_, Nat.le_refl _⟩
    have leftFree : enclosedNesting .or left left.nesting = left.nesting :=
      if_neg (Nat.not_lt.mpr leftTight)
    have rightFree : enclosedNesting .or right right.nesting = right.nesting :=
      if_neg (Nat.not_lt.mpr rightTight)
    show max (enclosedNesting .or left left.nesting)
      (enclosedNesting .or right right.nesting + 0) ≤ 1
    omega
  | case2 formula notOr =>
    unfold literal? at shape
    split at shape
    · exact ⟨Nat.zero_le _, Nat.le_add_left 2 3⟩
    · exact ⟨Nat.le_refl _, Nat.le_add_left 2 2⟩
    · cases shape

/-- In a conjunction of such disjunctions at most each of these does. -/
theorem nesting_isConjunctive_le {formula : Formula} (shape : formula.isConjunctive = true) :
    formula.nesting ≤ 2 ∧
      (formula.precedence.rank < Precedence.and.rank → formula.nesting ≤ 1) := by
  fun_induction isConjunctive formula with
  | case1 left right leftHypothesis rightHypothesis =>
    rw [Bool.and_eq_true] at shape
    obtain ⟨leftNesting, leftLoose⟩ := leftHypothesis shape.1
    obtain ⟨rightNesting, rightLoose⟩ := rightHypothesis shape.2
    have enclosed {operand : Formula} (within : operand.nesting ≤ 2)
        (loose : operand.precedence.rank < Precedence.and.rank → operand.nesting ≤ 1) :
        enclosedNesting .and operand operand.nesting ≤ 2 := by
      unfold enclosedNesting
      split
      case isTrue looser => exact Nat.succ_le_succ (loose looser)
      case isFalse => exact within
    refine ⟨?_, fun looser => absurd looser (Nat.lt_irrefl _)⟩
    exact Nat.max_le.mpr ⟨enclosed leftNesting leftLoose, enclosed rightNesting rightLoose⟩
  | case2 formula notAnd =>
    obtain ⟨nesting, _⟩ := nesting_isLiteralDisjunction_le shape
    exact ⟨Nat.le_succ_of_le nesting, fun _ => nesting⟩

/-- Normal forms are printed with little nesting, however long their chains are. -/
theorem nesting_cnf_le (formula : Formula) : formula.cnf.nesting ≤ 2 := by
  rcases cnf_shape formula with isTop | isBottom | shape
  · rw [isTop]
    exact Nat.zero_le _
  · rw [isBottom]
    exact Nat.zero_le _
  · exact (nesting_isConjunctive_le shape).1

/-- The printed normal form of a formula is read with its chains grouped to the left, unless
it is then too deep. -/
theorem parse_text_cnf (formula : Formula) :
    parse formula.cnf.text =
      if formula.cnf.regrouped.depth ≤ depthLimit then .ok formula.cnf.regrouped
      else .error .tooDeep := by
  have room : formula.cnf.nesting ≤ depthLimit :=
    Nat.le_trans formula.nesting_cnf_le (by decide)
  simp only [parse_text, room, true_and]

end Formula

namespace ClauseSet

/-- A formula is read as the same clauses however its chains are grouped. -/
theorem ofFormula_regrouped (formula : Formula) :
    ofFormula formula.regrouped = ofFormula formula := by
  have read : formula.regrouped.conjuncts.mapM Formula.clause? =
      formula.conjuncts.mapM Formula.clause? := by
    rw [Formula.conjuncts_regrouped, List.mapM_map]
    simp only [Function.comp_def, Formula.clause?_regrouped]
  rw [ofFormula, read, ofFormula]

/-- The printed normal form of a formula is read as its clauses, unless it is too deep
with its chains grouped to the left. -/
theorem parse_text_cnf (formula : Formula) :
    parse formula.cnf.text =
      if formula.cnf.regrouped.depth ≤ depthLimit then .ok (ofNormalForm formula)
      else .error (.parse .tooDeep) := by
  rw [parse, Formula.parse_text_cnf]
  by_cases shallow : formula.cnf.regrouped.depth ≤ depthLimit
  · rw [if_pos shallow, if_pos shallow]
    exact (ofFormula_regrouped formula.cnf).trans (ofFormula_cnf formula)
  · rw [if_neg shallow, if_neg shallow]

end ClauseSet
end BeliefRevision
