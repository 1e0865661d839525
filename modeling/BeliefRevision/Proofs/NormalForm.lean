import BeliefRevision.Formula.NormalForm

/-!
# Normal forms

Each pass keeps the truth value of every formula under every assignment, also of a
formula which an earlier pass would have removed.

In the order of the passes each meets what it asks for: without arrows the constants
fold into one constant or leave none; without constants negation reaches the atoms;
and then disjunction distributes until none has a conjunction below it.
-/

namespace BeliefRevision.Formula

/-- Replacing arrows by what they stand for keeps the truth value. -/
@[simp] theorem eval_eliminateArrows (truth : Atom → Bool) (formula : Formula) :
    formula.eliminateArrows.eval truth = formula.eval truth := by
  induction formula with
  | top | bottom | atom _ => rfl
  | not operand inductionHypothesis => simp only [eliminateArrows, eval, inductionHypothesis]
  | binary connective left right leftHypothesis rightHypothesis =>
    cases connective with
    | and | or | implies =>
      simp only [eliminateArrows, eval, Connective.apply, leftHypothesis, rightHypothesis]
    | iff =>
      simp only [eliminateArrows, eval, Connective.apply, leftHypothesis, rightHypothesis]
      cases left.eval truth <;> cases right.eval truth <;> rfl

/-- A folded negation has the truth value of the negation. -/
@[simp] theorem eval_foldNot (truth : Atom → Bool) (operand : Formula) :
    (foldNot operand).eval truth = !operand.eval truth := by
  unfold foldNot
  split <;> simp [eval]

/-- A folded conjunction has the truth value of the conjunction. -/
@[simp] theorem eval_foldAnd (truth : Atom → Bool) (left right : Formula) :
    (foldAnd left right).eval truth = (left.eval truth && right.eval truth) := by
  unfold foldAnd
  split <;> simp [eval, Connective.apply]

/-- A folded disjunction has the truth value of the disjunction. -/
@[simp] theorem eval_foldOr (truth : Atom → Bool) (left right : Formula) :
    (foldOr left right).eval truth = (left.eval truth || right.eval truth) := by
  unfold foldOr
  split <;> simp [eval, Connective.apply]

/-- Folding constants away keeps the truth value. -/
@[simp] theorem eval_foldConstants (truth : Atom → Bool) (formula : Formula) :
    formula.foldConstants.eval truth = formula.eval truth := by
  induction formula with
  | top | bottom | atom _ => rfl
  | not operand inductionHypothesis => simp [foldConstants, eval, inductionHypothesis]
  | binary connective left right leftHypothesis rightHypothesis =>
    cases connective with
    | and | or =>
      simp [foldConstants, eval, Connective.apply, leftHypothesis, rightHypothesis]
    | implies | iff => rfl

/-- With the positive sign the meaning is kept and with the negative one it is
negated, for all operands at once. -/
theorem eval_signed (truth : Atom → Bool) (positive : Bool) (formula : Formula) :
    (formula.signed positive).eval truth = (formula.eval truth == positive) := by
  induction formula generalizing positive with
  | top | bottom | atom _ => cases positive <;> simp [signed, eval]
  | not operand inductionHypothesis =>
    simp only [signed, eval, inductionHypothesis]
    cases operand.eval truth <;> cases positive <;> rfl
  | binary connective left right leftHypothesis rightHypothesis =>
    cases connective <;> cases positive <;>
      simp only [signed, eval, Connective.apply, leftHypothesis, rightHypothesis, if_true,
        Bool.false_eq_true, if_false] <;>
      cases left.eval truth <;> cases right.eval truth <;> rfl

/-- Pushing negations down to the atoms keeps the truth value. -/
@[simp] theorem eval_pushNegations (truth : Atom → Bool) (formula : Formula) :
    formula.pushNegations.eval truth = formula.eval truth := by
  rw [pushNegations, eval_signed, beq_true]

/-- Distributing a formula over the conjunctions of the second one makes their disjunction. -/
theorem eval_disjoinRight (truth : Atom → Bool) (left right : Formula) :
    (disjoinRight left right).eval truth = (left.eval truth || right.eval truth) := by
  fun_induction disjoinRight left right with
  | case1 first second firstHypothesis secondHypothesis =>
    simp only [eval, Connective.apply, firstHypothesis, secondHypothesis, Bool.or_and_distrib_left]
  | case2 right _ => rfl

/-- Distributing over the conjunctions of both makes their disjunction too. -/
theorem eval_disjoin (truth : Atom → Bool) (left right : Formula) :
    (disjoin left right).eval truth = (left.eval truth || right.eval truth) := by
  fun_induction disjoin left right with
  | case1 first second right firstHypothesis secondHypothesis =>
    simp only [eval, Connective.apply, firstHypothesis, secondHypothesis, Bool.or_and_distrib_right]
  | case2 left right _ => exact eval_disjoinRight truth left right

/-- Distribution keeps the truth value. -/
@[simp] theorem eval_distribute (truth : Atom → Bool) (formula : Formula) :
    formula.distribute.eval truth = formula.eval truth := by
  fun_induction distribute formula with
  | case1 left right leftHypothesis rightHypothesis =>
    simp only [eval, leftHypothesis, rightHypothesis]
  | case2 left right leftHypothesis rightHypothesis =>
    rw [eval_disjoin, leftHypothesis, rightHypothesis]
    rfl
  | case3 formula _ _ => rfl

/-- The normal form of a formula is true under the same assignments. -/
@[simp] theorem eval_cnf (truth : Atom → Bool) (formula : Formula) :
    formula.cnf.eval truth = formula.eval truth := by
  simp only [cnf, eval_distribute, eval_pushNegations, eval_foldConstants, eval_eliminateArrows]

/-- Whether no arrow occurs. -/
def isArrowFree : Formula → Bool
  | .top => true
  | .bottom => true
  | .atom _ => true
  | .not operand => operand.isArrowFree
  | .and left right => left.isArrowFree && right.isArrowFree
  | .or left right => left.isArrowFree && right.isArrowFree
  | .implies _ _ => false
  | .iff _ _ => false

/-- Whether neither an arrow nor a constant occurs. -/
def isPlain : Formula → Bool
  | .top => false
  | .bottom => false
  | .atom _ => true
  | .not operand => operand.isPlain
  | .and left right => left.isPlain && right.isPlain
  | .or left right => left.isPlain && right.isPlain
  | .implies _ _ => false
  | .iff _ _ => false

/-- Whether the formula is made of literals by conjunction and disjunction. -/
def isNegationNormal : Formula → Bool
  | .and left right => left.isNegationNormal && right.isNegationNormal
  | .or left right => left.isNegationNormal && right.isNegationNormal
  | formula => formula.literal?.isSome

/-- Whether the formula is made of literals by disjunction. -/
def isLiteralDisjunction : Formula → Bool
  | .or left right => left.isLiteralDisjunction && right.isLiteralDisjunction
  | formula => formula.literal?.isSome

/-- Whether the formula is made of disjunctions of literals by conjunction. -/
def isConjunctive : Formula → Bool
  | .and left right => left.isConjunctive && right.isConjunctive
  | formula => formula.isLiteralDisjunction

/-- No arrow is left where all are replaced. -/
theorem isArrowFree_eliminateArrows (formula : Formula) :
    formula.eliminateArrows.isArrowFree = true := by
  induction formula with
  | top | bottom | atom _ => rfl
  | not operand inductionHypothesis => exact inductionHypothesis
  | binary connective left right leftHypothesis rightHypothesis =>
    cases connective <;>
      simp only [eliminateArrows, isArrowFree, leftHypothesis, rightHypothesis, Bool.and_self]

/-- Without arrows, folding leaves a constant or no constant at all. -/
theorem foldConstants_shape {formula : Formula} (arrowFree : formula.isArrowFree = true) :
    formula.foldConstants = .top ∨ formula.foldConstants = .bottom ∨
      formula.foldConstants.isPlain = true := by
  induction formula with
  | top => exact Or.inl rfl
  | bottom => exact Or.inr (Or.inl rfl)
  | atom _ => exact Or.inr (Or.inr rfl)
  | not operand inductionHypothesis =>
    rw [foldConstants]
    rcases inductionHypothesis arrowFree with isTop | isBottom | isPlain
    · simp [isTop, foldNot]
    · simp [isBottom, foldNot]
    · refine Or.inr (Or.inr ?_)
      unfold foldNot
      split <;> simp_all [Formula.isPlain]
  | binary connective left right leftHypothesis rightHypothesis =>
    cases connective with
    | implies | iff => simp [isArrowFree] at arrowFree
    | and =>
      simp only [isArrowFree, Bool.and_eq_true] at arrowFree
      have ofLeft := leftHypothesis arrowFree.1
      have ofRight := rightHypothesis arrowFree.2
      simp only [foldConstants]
      unfold foldAnd
      split <;> simp_all [isPlain]
    | or =>
      simp only [isArrowFree, Bool.and_eq_true] at arrowFree
      have ofLeft := leftHypothesis arrowFree.1
      have ofRight := rightHypothesis arrowFree.2
      simp only [foldConstants]
      unfold foldOr
      split <;> simp_all [isPlain]

/-- Without arrows and constants, negation reaches the atoms. -/
theorem isNegationNormal_signed {formula : Formula} (plain : formula.isPlain = true)
    (positive : Bool) : (formula.signed positive).isNegationNormal = true := by
  induction formula generalizing positive with
  | top | bottom => simp [isPlain] at plain
  | atom _ => cases positive <;> rfl
  | not operand inductionHypothesis => exact inductionHypothesis plain !positive
  | binary connective left right leftHypothesis rightHypothesis =>
    cases connective with
    | implies | iff => simp [isPlain] at plain
    | and | or =>
      simp only [isPlain, Bool.and_eq_true] at plain
      cases positive <;>
        simp [signed, isNegationNormal, leftHypothesis plain.1, rightHypothesis plain.2]

/-- A disjunction of literals which is distributed over a conjunctive formula gives a conjunctive
one: it joins the disjunctions there and adds no conjunction below them. -/
theorem isConjunctive_disjoinRight {left right : Formula}
    (leftShape : left.isLiteralDisjunction = true) (rightShape : right.isConjunctive = true) :
    (disjoinRight left right).isConjunctive = true := by
  fun_induction disjoinRight left right with
  | case1 first second firstHypothesis secondHypothesis =>
    simp only [isConjunctive, Bool.and_eq_true] at rightShape ⊢
    exact ⟨firstHypothesis rightShape.1, secondHypothesis rightShape.2⟩
  | case2 right notAnd =>
    rw [isConjunctive.eq_2 _ notAnd] at rightShape
    simp [isConjunctive, isLiteralDisjunction, leftShape, rightShape]

/-- So does a conjunctive formula, conjunct by conjunct. -/
theorem isConjunctive_disjoin {left right : Formula} (leftShape : left.isConjunctive = true)
    (rightShape : right.isConjunctive = true) : (disjoin left right).isConjunctive = true := by
  fun_induction disjoin left right with
  | case1 first second right firstHypothesis secondHypothesis =>
    simp only [isConjunctive, Bool.and_eq_true] at leftShape ⊢
    exact ⟨firstHypothesis leftShape.1 rightShape, secondHypothesis leftShape.2 rightShape⟩
  | case2 left right notAnd =>
    rw [isConjunctive.eq_2 _ notAnd] at leftShape
    exact isConjunctive_disjoinRight leftShape rightShape

/-- In negation normal form, distribution leaves no conjunction below a disjunction. -/
theorem isConjunctive_distribute {formula : Formula} (normal : formula.isNegationNormal = true) :
    formula.distribute.isConjunctive = true := by
  fun_induction distribute formula with
  | case1 left right leftHypothesis rightHypothesis =>
    simp only [isNegationNormal, isConjunctive, Bool.and_eq_true] at normal ⊢
    exact ⟨leftHypothesis normal.1, rightHypothesis normal.2⟩
  | case2 left right leftHypothesis rightHypothesis =>
    simp only [isNegationNormal, Bool.and_eq_true] at normal
    exact isConjunctive_disjoin (leftHypothesis normal.1) (rightHypothesis normal.2)
  | case3 formula notAnd notOr =>
    rw [isNegationNormal.eq_3 _ notAnd notOr] at normal
    rw [isConjunctive.eq_2 _ notAnd, isLiteralDisjunction.eq_2 _ notOr]
    exact normal

/-- A normal form is a constant, or a conjunction of disjunctions of literals. -/
theorem cnf_shape (formula : Formula) :
    formula.cnf = .top ∨ formula.cnf = .bottom ∨ formula.cnf.isConjunctive = true := by
  rcases foldConstants_shape (isArrowFree_eliminateArrows formula) with isTop | isBottom | isPlain
  · exact Or.inl (by rw [cnf, isTop]; rfl)
  · exact Or.inr (Or.inl (by rw [cnf, isBottom]; rfl))
  · exact Or.inr (Or.inr (isConjunctive_distribute (isNegationNormal_signed isPlain true)))

end BeliefRevision.Formula
