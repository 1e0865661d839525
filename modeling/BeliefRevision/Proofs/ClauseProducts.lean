import BeliefRevision.Proofs.ClausalForm

/-!
# The clauses of a distributed formula

Distributing disjunction over conjunction multiplies clauses out. Below a conjunction the
clauses of the second operand follow those of the first, and below a disjunction each clause of
the first operand is joined with each of the second, in the order of reading. The product is
said here on clauses alone, without a formula in between, and distribution is shown to compute
it: no clause is lost, added, joined with another or moved.
-/

namespace BeliefRevision

namespace Formula

/-- The clauses which the formula stands for when its disjunctions are multiplied out. -/
def products : Formula → List Clause
  | .and left right => left.products ++ right.products
  | .or left right =>
    left.products.flatMap fun clause => right.products.map fun other => clause.union other
  | formula => formula.literal?.toList.map fun literal => .ofList [literal]

/-- The sum over conjunctions and the product over disjunctions, each literal counted once. -/
def productCount : Formula → Nat
  | .and left right => left.productCount + right.productCount
  | .or left right => left.productCount * right.productCount
  | _ => 1

/-- The clause of a disjunction of literals. -/
def literalClause (formula : Formula) : Clause := .ofList (formula.disjuncts.filterMap literal?)

/-- The clause of a disjunction joins the clauses of both sides. -/
theorem literalClause_or (left right : Formula) :
    (or left right).literalClause = left.literalClause.union right.literalClause := by
  apply Clause.ext
  intro literal
  simp only [literalClause, disjuncts, List.filterMap_append, Clause.mem_union, Clause.mem_ofList,
    List.mem_append]

/-- The clause of a literal has just this literal. -/
theorem literalClause_of_literal? {formula : Formula} {literal : Literal}
    (isLiteral : formula.literal? = some literal) :
    formula.literalClause = .ofList [literal] := by
  have alone : formula.disjuncts = [formula] := by
    cases formula with
    | top | bottom | atom _ | not _ => rfl
    | binary _ _ _ => cases isLiteral
  rw [literalClause, alone, List.filterMap_cons_some isLiteral, List.filterMap_nil]

/-- The conjuncts are those of the second formula, each in a disjunction with the first. -/
theorem conjuncts_disjoinRight (left right : Formula) :
    (disjoinRight left right).conjuncts = right.conjuncts.map (or left) := by
  fun_induction disjoinRight left right with
  | case1 first second firstHypothesis secondHypothesis =>
    rw [conjuncts, firstHypothesis, secondHypothesis, conjuncts, List.map_append]
  | case2 right notAnd =>
    rw [conjuncts.eq_2 _ notAnd]
    rfl

/-- The conjuncts are the disjunctions of a conjunct of each, those of the first outermost. -/
theorem conjuncts_disjoin (left right : Formula) :
    (disjoin left right).conjuncts =
      left.conjuncts.flatMap fun first => right.conjuncts.map (or first) := by
  fun_induction disjoin left right with
  | case1 first second right firstHypothesis secondHypothesis =>
    rw [conjuncts, firstHypothesis, secondHypothesis, conjuncts, List.flatMap_append]
  | case2 left right notAnd =>
    rw [conjuncts_disjoinRight, conjuncts.eq_2 _ notAnd, List.flatMap_singleton]

/-- The clauses of the conjuncts of a distributed formula are the products. -/
theorem literalClauses_distribute {formula : Formula} (normal : formula.isNegationNormal = true) :
    formula.distribute.conjuncts.map literalClause = formula.products := by
  fun_induction distribute formula with
  | case1 left right leftHypothesis rightHypothesis =>
    have both := Bool.and_eq_true_iff.mp normal
    rw [conjuncts, List.map_append, leftHypothesis both.1, rightHypothesis both.2, products]
  | case2 left right leftHypothesis rightHypothesis =>
    have both := Bool.and_eq_true_iff.mp normal
    rw [conjuncts_disjoin, products, ← leftHypothesis both.1, ← rightHypothesis both.2]
    simp only [List.map_flatMap, List.flatMap_map, List.map_map, Function.comp_def,
      literalClause_or]
  | case3 formula notAnd notOr =>
    rw [isNegationNormal.eq_3 _ notAnd notOr] at normal
    obtain ⟨literal, isLiteral⟩ := Option.isSome_iff_exists.mp normal
    rw [conjuncts.eq_2 _ notAnd, products.eq_3 _ notAnd notOr, List.map_singleton,
      literalClause_of_literal? isLiteral, isLiteral]
    rfl

/-- As many products as the count says: none is lost. -/
theorem length_products {formula : Formula} (normal : formula.isNegationNormal = true) :
    formula.products.length = formula.productCount := by
  fun_induction products formula with
  | case1 left right leftHypothesis rightHypothesis =>
    have both := Bool.and_eq_true_iff.mp normal
    rw [List.length_append, leftHypothesis both.1, rightHypothesis both.2, productCount]
  | case2 left right rightHypothesis leftHypothesis =>
    have both := Bool.and_eq_true_iff.mp normal
    simp only [List.length_flatMap, List.length_map, List.map_const', List.sum_replicate_nat,
      leftHypothesis both.1, rightHypothesis both.2, productCount]
  | case3 formula notAnd notOr =>
    rw [isNegationNormal.eq_3 _ notAnd notOr] at normal
    obtain ⟨literal, isLiteral⟩ := Option.isSome_iff_exists.mp normal
    rw [isLiteral, productCount.eq_3 _ notAnd notOr]
    rfl

/-- A disjunction of literals has no true constant, and so it is read as its clause. -/
theorem readClause_eq_literalClause {formula : Formula}
    (shape : formula.isLiteralDisjunction = true) :
    formula.readClause = some formula.literalClause := by
  refine if_neg fun hasTop => ?_
  cases isSome_literal?_of_mem_disjuncts shape (List.contains_iff_mem.mp hasTop)

end Formula

namespace ClauseSet

/-- A conjunction of disjunctions of literals is read as the clauses of its conjuncts. -/
theorem ofFormula_of_isConjunctive {formula : Formula} (shape : formula.isConjunctive = true) :
    ofFormula formula = .ok ⟨formula.conjuncts.map Formula.literalClause⟩ := by
  have each : formula.conjuncts.filterMap Formula.readClause =
      formula.conjuncts.map Formula.literalClause := by
    rw [← List.filterMap_eq_map]
    apply List.filterMap_congr
    intro conjunct member
    exact Formula.readClause_eq_literalClause
      (Formula.isLiteralDisjunction_of_mem_conjuncts shape member)
  rw [ofFormula_eq, if_pos (Formula.isReadable_of_isConjunctive shape), each]

/-- What is read off a distributed formula are the products of its clauses, in order, and there
are as many as the sum over conjunctions and the product over disjunctions says. -/
theorem ofFormula_distribute (formula : Formula) (normal : formula.isNegationNormal = true) :
    ofFormula formula.distribute = .ok ⟨formula.products⟩ ∧
      formula.products.length = formula.productCount := by
  refine ⟨?_, Formula.length_products normal⟩
  rw [ofFormula_of_isConjunctive (Formula.isConjunctive_distribute normal),
    Formula.literalClauses_distribute normal]

/-- A conjunction between two literals, in a disjunction. -/
def enclosedFormula : Formula :=
  .or (.or (.atom ⟨"D", by decide⟩) (.and (.atom ⟨"E", by decide⟩) (.not (.atom ⟨"D", by decide⟩))))
    (.atom ⟨"F", by decide⟩)

/-- Both products have the literals around the conjunction, and the second is a tautology. -/
theorem ofFormula_distribute_enclosed :
    enclosedFormula.isNegationNormal = true ∧
      ofFormula enclosedFormula.distribute = .ok ⟨enclosedFormula.products⟩ ∧
      enclosedFormula.products.length = enclosedFormula.productCount :=
  ⟨rfl, ofFormula_distribute enclosedFormula rfl⟩

example : enclosedFormula.products.map Clause.text = ["D∨E∨F", "D∨¬D∨F"] ∧
    enclosedFormula.productCount = 2 := by decide

end ClauseSet
end BeliefRevision
