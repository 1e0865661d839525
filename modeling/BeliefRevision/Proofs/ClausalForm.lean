import BeliefRevision.Proofs.Rereading
import BeliefRevision.Proofs.Resolvents

/-!
# What stands in a normal form

A normal form is a constant, or a conjunction of disjunctions of literals. In the latter
no constant and no arrow stands anywhere, only atoms are negated, and no conjunction
stands below a disjunction. It can therefore be read as clauses, of which there are as
many as disjunctions, none of them empty: no clause at all is read off the true constant
only, and the empty one off the false constant only.
-/

namespace BeliefRevision

namespace Formula

/-- The formula and all formulas below it. -/
def subformulas : Formula → List Formula
  | .top => [.top]
  | .bottom => [.bottom]
  | .atom leaf => [.atom leaf]
  | .not operand => .not operand :: operand.subformulas
  | .binary connective left right =>
    .binary connective left right :: (left.subformulas ++ right.subformulas)

/-- A formula is among its own subformulas. -/
theorem mem_subformulas_self (formula : Formula) : formula ∈ formula.subformulas := by
  cases formula <;> simp [subformulas]

/-- What is forbidden in a conjunction of disjunctions of literals stands nowhere in it. -/
structure IsClausal (formula : Formula) : Prop where
  conjunctive : formula.isConjunctive = true
  noConstant : .top ∉ formula.subformulas ∧ .bottom ∉ formula.subformulas
  noArrow : ∀ left right,
    .implies left right ∉ formula.subformulas ∧ .iff left right ∉ formula.subformulas
  negatesAtoms : ∀ operand, .not operand ∈ formula.subformulas → ∃ leaf, operand = .atom leaf
  noConjunctionBelow : ∀ left right, .or left right ∈ formula.subformulas →
    ∀ first second, .and first second ∉ (or left right).subformulas

/-- A clausal formula is not the true constant, which would stand in it. -/
theorem IsClausal.ne_top {formula : Formula} (clausal : formula.IsClausal) : formula ≠ .top := by
  rintro rfl
  exact clausal.noConstant.1 (mem_subformulas_self _)

/-- A clausal formula is not the false constant either. -/
theorem IsClausal.ne_bottom {formula : Formula} (clausal : formula.IsClausal) :
    formula ≠ .bottom := by
  rintro rfl
  exact clausal.noConstant.2 (mem_subformulas_self _)

/-- A negation which is a literal is that of an atom. -/
theorem exists_atom_of_literal? {operand : Formula}
    (isLiteral : (literal? (.not operand)).isSome = true) : ∃ leaf, operand = .atom leaf := by
  cases operand with
  | atom leaf => exact ⟨leaf, rfl⟩
  | top | bottom | not _ | binary _ _ _ => cases isLiteral

/-- Below a disjunction of literals stand only disjunctions of literals. -/
theorem isLiteralDisjunction_of_mem {formula part : Formula}
    (shape : formula.isLiteralDisjunction = true) (member : part ∈ formula.subformulas) :
    part.isLiteralDisjunction = true := by
  induction formula with
  | top | bottom => cases shape
  | atom leaf =>
    rw [List.mem_singleton.mp member]
    rfl
  | not operand _ =>
    obtain ⟨leaf, rfl⟩ := exists_atom_of_literal? shape
    rcases List.mem_cons.mp member with rfl | below
    · rfl
    · rw [List.mem_singleton.mp below]
      rfl
  | binary connective left right leftHypothesis rightHypothesis =>
    cases connective with
    | and | implies | iff => cases shape
    | or =>
      rcases List.mem_cons.mp member with rfl | below
      · exact shape
      · have both := Bool.and_eq_true_iff.mp shape
        rcases List.mem_append.mp below with inLeft | inRight
        · exact leftHypothesis both.1 inLeft
        · exact rightHypothesis both.2 inRight

/-- A disjunction of literals is a conjunction of one of them. -/
theorem isConjunctive_of_isLiteralDisjunction {formula : Formula}
    (shape : formula.isLiteralDisjunction = true) : formula.isConjunctive = true := by
  rw [isConjunctive.eq_2]
  · exact shape
  · rintro left right rfl
    cases shape

/-- Below a conjunction of disjunctions of literals stand only such conjunctions. -/
theorem isConjunctive_of_mem {formula part : Formula}
    (shape : formula.isConjunctive = true) (member : part ∈ formula.subformulas) :
    part.isConjunctive = true := by
  induction formula with
  | top | bottom | atom _ | not _ _ =>
    exact isConjunctive_of_isLiteralDisjunction (isLiteralDisjunction_of_mem shape member)
  | binary connective left right leftHypothesis rightHypothesis =>
    cases connective with
    | or | implies | iff =>
      exact isConjunctive_of_isLiteralDisjunction (isLiteralDisjunction_of_mem shape member)
    | and =>
      rcases List.mem_cons.mp member with rfl | below
      · exact shape
      · have both := Bool.and_eq_true_iff.mp shape
        rcases List.mem_append.mp below with inLeft | inRight
        · exact leftHypothesis both.1 inLeft
        · exact rightHypothesis both.2 inRight

/-- The test of the shape finds all which must not stand in a clausal formula. What it accepts has
therefore none of it anywhere. -/
theorem isClausal_of_isConjunctive {formula : Formula} (shape : formula.isConjunctive = true) :
    formula.IsClausal where
  conjunctive := shape
  noConstant := by
    constructor
    · intro member
      cases isConjunctive_of_mem shape member
    · intro member
      cases isConjunctive_of_mem shape member
  noArrow := by
    intro left right
    constructor
    · intro member
      cases isConjunctive_of_mem shape member
    · intro member
      cases isConjunctive_of_mem shape member
  negatesAtoms := by
    intro operand member
    exact exists_atom_of_literal? (isConjunctive_of_mem shape member)
  noConjunctionBelow := by
    intro left right member first second below
    have disjunction : (or left right).isLiteralDisjunction = true :=
      isConjunctive_of_mem shape member
    cases isLiteralDisjunction_of_mem disjunction below

/-- Every formula has an operand in a chain of the connective, if only itself. -/
theorem exists_mem_chainOperands (connective : Connective) (formula : Formula) :
    ∃ operand, operand ∈ formula.chainOperands connective := by
  fun_induction chainOperands connective formula with
  | case1 left right leftHypothesis _ =>
    obtain ⟨operand, member⟩ := leftHypothesis
    exact ⟨operand, List.mem_append_left _ member⟩
  | case2 other left right _ => exact ⟨.binary other left right, List.mem_singleton.mpr rfl⟩
  | case3 formula _ => exact ⟨formula, List.mem_singleton.mpr rfl⟩

/-- The disjuncts of a disjunction of literals are literals. -/
theorem isSome_literal?_of_mem_disjuncts {formula disjunct : Formula}
    (shape : formula.isLiteralDisjunction = true) (member : disjunct ∈ formula.disjuncts) :
    disjunct.literal?.isSome = true := by
  rw [isLiteralDisjunction_eq_all] at shape
  exact List.all_eq_true.mp shape disjunct member

/-- The conjuncts of a conjunction of disjunctions of literals are such disjunctions. -/
theorem isLiteralDisjunction_of_mem_conjuncts {formula conjunct : Formula}
    (shape : formula.isConjunctive = true) (member : conjunct ∈ formula.conjuncts) :
    conjunct.isLiteralDisjunction = true := by
  rw [isConjunctive_eq_all] at shape
  exact List.all_eq_true.mp shape conjunct member

/-- A disjunction of literals is read as a clause, in which each of the literals is. -/
theorem readClause_of_isLiteralDisjunction {formula : Formula}
    (shape : formula.isLiteralDisjunction = true) :
    ∃ clause, formula.readClause = some clause ∧ clause.isEmpty = false := by
  have noTop : ¬ formula.disjuncts.contains .top = true := by
    intro hasTop
    cases isSome_literal?_of_mem_disjuncts shape (List.contains_iff_mem.mp hasTop)
  refine ⟨.ofList (formula.disjuncts.filterMap literal?), if_neg noTop, ?_⟩
  obtain ⟨disjunct, member⟩ := formula.exists_mem_chainOperands .or
  rw [← disjuncts_eq] at member
  obtain ⟨literal, isLiteral⟩ :=
    Option.isSome_iff_exists.mp (isSome_literal?_of_mem_disjuncts shape member)
  rw [← Bool.not_eq_true, Clause.isEmpty_iff]
  intro noLiteral
  have inClause : literal ∈ formula.disjuncts.filterMap literal? :=
    List.mem_filterMap.mpr ⟨disjunct, member, isLiteral⟩
  exact noLiteral literal (Clause.mem_ofList.mpr inClause)

end Formula

namespace ClauseSet

/-- There is a clause for each disjunction of literals, and none is empty. -/
theorem ofNormalForm_of_isConjunctive {formula : Formula}
    (shape : formula.cnf.isConjunctive = true) :
    (ofNormalForm formula).isEmpty = false ∧ (ofNormalForm formula).hasEmptyClause = false := by
  have read : ∀ conjunct ∈ formula.cnf.conjuncts,
      ∃ clause, conjunct.readClause = some clause ∧ clause.isEmpty = false := by
    intro conjunct member
    exact Formula.readClause_of_isLiteralDisjunction
      (Formula.isLiteralDisjunction_of_mem_conjuncts shape member)
  constructor
  · obtain ⟨conjunct, member⟩ := formula.cnf.exists_mem_chainOperands .and
    rw [← Formula.conjuncts_eq] at member
    obtain ⟨clause, isRead, _⟩ := read conjunct member
    have inSet : clause ∈ (ofNormalForm formula).clauses :=
      List.mem_filterMap.mpr ⟨conjunct, member, isRead⟩
    exact List.isEmpty_eq_false_iff_exists_mem.mpr ⟨clause, inSet⟩
  · rw [hasEmptyClause, List.any_eq_false]
    intro clause inSet isEmpty
    obtain ⟨conjunct, member, isRead⟩ := List.mem_filterMap.mp inSet
    obtain ⟨other, alsoRead, notEmpty⟩ := read conjunct member
    cases Option.some.inj (isRead.symm.trans alsoRead)
    rw [notEmpty] at isEmpty
    cases isEmpty

/-- Every normal form is a constant or a conjunction of disjunctions of literals, and is
read as clauses in any case. There is no clause exactly where it is the true constant, and
an empty one exactly where it is the false constant. -/
theorem ofFormula_cnf_shape (formula : Formula) :
    (formula.cnf = .top ∨ formula.cnf = .bottom ∨ formula.cnf.IsClausal) ∧
      ∃ set, ofFormula formula.cnf = .ok set ∧
        (set.isEmpty = true ↔ formula.cnf = .top) ∧
        (set.hasEmptyClause = true ↔ formula.cnf = .bottom) := by
  have read := ofFormula_cnf formula
  rcases Formula.cnf_shape formula with isTop | isBottom | shape
  · refine ⟨.inl isTop, ofNormalForm formula, read, ?_⟩
    simp only [ofNormalForm, isTop]
    decide
  · refine ⟨.inr (.inl isBottom), ofNormalForm formula, read, ?_⟩
    simp only [ofNormalForm, isBottom]
    decide
  · have clausal := Formula.isClausal_of_isConjunctive shape
    obtain ⟨notEmpty, noneEmpty⟩ := ofNormalForm_of_isConjunctive shape
    refine ⟨.inr (.inr clausal), ofNormalForm formula, read, ?_⟩
    simp [notEmpty, noneEmpty, clausal.ne_top, clausal.ne_bottom]

end ClauseSet
end BeliefRevision
