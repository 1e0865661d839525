import BeliefRevision.Clause.ClauseSet
import BeliefRevision.Proofs.NormalForm

/-!
# Reading clauses off a formula

A formula can be read as clauses exactly when the operands of its top conjunctions
are disjunctions of leaves, and the clauses are then true under the assignments which
make the formula true. Normal forms can always be read.
-/

namespace BeliefRevision

/-- Where all items fail for the same reason, reading them one by one gives all of the
values or that reason. -/
theorem mapM_of_each {Item Value Cause : Type} {read : Item → Except Cause Value}
    {isReadable : Item → Bool} {value : Item → Value} {cause : Cause} {items : List Item}
    (each : ∀ item ∈ items,
      read item = if isReadable item then .ok (value item) else .error cause) :
    items.mapM read = if items.all isReadable then .ok (items.map value) else .error cause := by
  induction items with
  | nil => rfl
  | cons item items inductionHypothesis =>
    have others := inductionHypothesis fun other member =>
      each other (List.mem_cons_of_mem item member)
    rw [List.mapM_cons, each item List.mem_cons_self, others, List.all_cons]
    cases isReadable item with
    | false => rfl
    | true =>
      cases items.all isReadable with
      | false => rfl
      | true => rfl

namespace Formula

/-- Whether the operands of the conjunctions at the top are disjunctions of leaves. -/
def isReadable (formula : Formula) : Bool :=
  formula.conjuncts.all fun conjunct => conjunct.disjuncts.all isLeaf

/-- The clause of a disjunction of leaves, or nothing where a leaf makes it true. -/
def readClause (formula : Formula) : Option Clause :=
  if formula.disjuncts.contains .top then none
  else some (.ofList (formula.disjuncts.filterMap literal?))

/-- Reading fails at the first operand which is no disjunction of leaves. -/
theorem mapM_clause? (formulas : List Formula) :
    formulas.mapM clause? =
      if formulas.all fun formula => formula.disjuncts.all isLeaf then .ok (formulas.map readClause)
      else .error .notClausal := by
  apply mapM_of_each
  intro formula _
  rfl

/-- A formula is true exactly when all its conjuncts are. -/
theorem eval_conjuncts (truth : Atom → Bool) (formula : Formula) :
    formula.conjuncts.all (eval truth) = formula.eval truth := by
  fun_induction conjuncts formula with
  | case1 left right leftHypothesis rightHypothesis =>
    rw [List.all_append, leftHypothesis, rightHypothesis]
    rfl
  | case2 formula _ => simp

/-- A formula is true exactly when one of its disjuncts is. -/
theorem eval_disjuncts (truth : Atom → Bool) (formula : Formula) :
    formula.disjuncts.any (eval truth) = formula.eval truth := by
  fun_induction disjuncts formula with
  | case1 left right leftHypothesis rightHypothesis =>
    rw [List.any_append, leftHypothesis, rightHypothesis]
    rfl
  | case2 formula _ => simp

/-- A formula which is a literal has the truth value of the literal. -/
theorem eval_of_literal? {truth : Atom → Bool} {formula : Formula} {literal : Literal}
    (isLiteral : formula.literal? = some literal) : formula.eval truth = literal.eval truth := by
  unfold literal? at isLiteral
  split at isLiteral
  · cases isLiteral
    simp [eval, Literal.eval]
  · cases isLiteral
    simp [eval, Literal.eval]
  · cases isLiteral

/-- A leaf other than the true one is true exactly when it is a true literal. -/
theorem eval_leaf {truth : Atom → Bool} {leaf : Formula} (isLeaf : leaf.isLeaf = true)
    (notTop : leaf ≠ .top) :
    leaf.eval truth = true ↔
      ∃ literal, leaf.literal? = some literal ∧ literal.eval truth = true := by
  simp only [Formula.isLeaf, Bool.or_eq_true, beq_iff_eq] at isLeaf
  rcases isLeaf with (isTop | isBottom) | isLiteral
  · exact absurd isTop notTop
  · subst isBottom
    simp [eval, literal?]
  · obtain ⟨literal, same⟩ := Option.isSome_iff_exists.mp isLiteral
    simp [same, eval_of_literal? same]

/-- A disjunction of leaves is true exactly when the clause which is read is. Where no
clause is read it is true in any case. -/
theorem eval_readClause {truth : Atom → Bool} {formula : Formula}
    (leaves : formula.disjuncts.all isLeaf = true) :
    formula.eval truth = (formula.readClause.map (Clause.eval truth)).getD true := by
  rw [← eval_disjuncts]
  unfold readClause
  split
  case isTrue hasTop =>
    exact List.any_eq_true.mpr ⟨.top, List.contains_iff_mem.mp hasTop, rfl⟩
  case isFalse noTop =>
    rw [Bool.eq_iff_iff, List.any_eq_true, Option.map_some, Option.getD_some,
      Clause.eval_eq_true_iff]
    simp only [Clause.mem_ofList, List.mem_filterMap]
    have isLeaf : ∀ leaf ∈ formula.disjuncts, leaf.isLeaf = true := List.all_eq_true.mp leaves
    have notTop : ∀ leaf ∈ formula.disjuncts, leaf ≠ .top := by
      intro leaf member isTop
      exact noTop (List.contains_iff_mem.mpr (isTop ▸ member))
    constructor
    · rintro ⟨leaf, member, holds⟩
      obtain ⟨literal, same, literalHolds⟩ :=
        (eval_leaf (isLeaf leaf member) (notTop leaf member)).mp holds
      exact ⟨literal, ⟨leaf, member, same⟩, literalHolds⟩
    · rintro ⟨literal, ⟨leaf, member, same⟩, holds⟩
      exact ⟨leaf, member, (eval_of_literal? same).trans holds⟩

/-- A disjunction of literals is a formula whose disjuncts all are literals. -/
theorem isLiteralDisjunction_eq_all (formula : Formula) :
    formula.isLiteralDisjunction =
      formula.disjuncts.all fun disjunct => disjunct.literal?.isSome := by
  fun_induction disjuncts formula with
  | case1 left right leftHypothesis rightHypothesis =>
    rw [isLiteralDisjunction, List.all_append, leftHypothesis, rightHypothesis]
  | case2 formula notOr =>
    rw [isLiteralDisjunction.eq_2 _ notOr, List.all_cons, List.all_nil, Bool.and_true]

/-- A conjunction of disjunctions of literals is a formula whose conjuncts all are such
disjunctions. -/
theorem isConjunctive_eq_all (formula : Formula) :
    formula.isConjunctive = formula.conjuncts.all isLiteralDisjunction := by
  fun_induction conjuncts formula with
  | case1 left right leftHypothesis rightHypothesis =>
    rw [isConjunctive, List.all_append, leftHypothesis, rightHypothesis]
  | case2 formula notAnd =>
    rw [isConjunctive.eq_2 _ notAnd, List.all_cons, List.all_nil, Bool.and_true]

/-- The reader takes every conjunction of disjunctions of literals. -/
theorem isReadable_of_isConjunctive {formula : Formula} (shape : formula.isConjunctive = true) :
    formula.isReadable = true := by
  simp only [isConjunctive_eq_all, isLiteralDisjunction_eq_all, List.all_eq_true] at shape
  simp only [isReadable, List.all_eq_true]
  intro conjunct inFormula leaf inConjunct
  rw [isLeaf, shape conjunct inFormula leaf inConjunct, Bool.or_true]

/-- The reader takes every normal form, constants included. -/
theorem isReadable_cnf (formula : Formula) : formula.cnf.isReadable = true := by
  rcases cnf_shape formula with isTop | isBottom | shape
  · rw [isTop]
    rfl
  · rw [isBottom]
    rfl
  · exact isReadable_of_isConjunctive shape

end Formula

namespace ClauseSet

/-- The clauses of a formula are those of the operands of its top conjunctions. -/
theorem ofFormula_eq (formula : Formula) :
    ofFormula formula =
      if formula.isReadable then .ok ⟨formula.conjuncts.filterMap Formula.readClause⟩
      else .error .notClausal := by
  have reading : formula.conjuncts.mapM Formula.clause? =
      if formula.isReadable then .ok (formula.conjuncts.map Formula.readClause)
      else .error .notClausal := Formula.mapM_clause? formula.conjuncts
  unfold ofFormula
  rw [reading]
  by_cases readable : formula.isReadable = true
  · rw [if_pos readable, if_pos readable]
    simp [List.filterMap_map]
  · rw [if_neg readable, if_neg readable]

/-- What is read has the truth value of the formula. -/
theorem eval_ofFormula {formula : Formula} {set : ClauseSet} (read : ofFormula formula = .ok set)
    (truth : Atom → Bool) : set.eval truth = formula.eval truth := by
  rw [ofFormula_eq] at read
  split at read
  case isTrue readable =>
    cases read
    have same : ∀ conjunct ∈ formula.conjuncts, conjunct.eval truth =
        (conjunct.readClause.map (Clause.eval truth)).getD true := by
      intro conjunct member
      exact Formula.eval_readClause (List.all_eq_true.mp readable conjunct member)
    rw [← Formula.eval_conjuncts, Bool.eq_iff_iff, eval_eq_true_iff, List.all_eq_true]
    constructor
    · intro holds conjunct member
      rw [same conjunct member]
      cases isRead : conjunct.readClause with
      | none => rfl
      | some clause => exact holds clause (List.mem_filterMap.mpr ⟨conjunct, member, isRead⟩)
    · intro holds clause isRead
      obtain ⟨conjunct, member, isRead⟩ := List.mem_filterMap.mp isRead
      simpa [isRead, same conjunct member] using holds conjunct member
  case isFalse => cases read

/-- The clauses of the normal form of the formula. -/
def ofNormalForm (formula : Formula) : ClauseSet :=
  ⟨formula.cnf.conjuncts.filterMap Formula.readClause⟩

/-- A normal form can be read. -/
theorem ofFormula_cnf (formula : Formula) : ofFormula formula.cnf = .ok (ofNormalForm formula) := by
  rw [ofFormula_eq, if_pos (Formula.isReadable_cnf formula), ofNormalForm]

/-- The clauses of the normal form mean what the formula means. -/
@[simp] theorem eval_ofNormalForm (truth : Atom → Bool) (formula : Formula) :
    (ofNormalForm formula).eval truth = formula.eval truth := by
  rw [eval_ofFormula (ofFormula_cnf formula), Formula.eval_cnf]

end ClauseSet
end BeliefRevision
