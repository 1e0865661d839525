import BeliefRevision.Proofs.ClausalForm

/-!
# Which formulas are read as clauses

The operands of a connective at the top of a formula are the formulas at the ends of its tree
of that connective. A formula is a conjunction of disjunctions when the operands of its
conjunctions have as operands of their disjunctions only literals and constants. The reader
takes exactly these formulas, and refuses every other one: also one in which a true constant
stands beside what is no leaf, and has made the disjunction true already.

What is read has the meaning of the formula, although constants leave no trace in it.
-/

namespace BeliefRevision

namespace Formula

/-- The operand stands at an end of the tree of the connective at the top of the formula. -/
inductive IsOperand (connective : Connective) (operand : Formula) : Formula → Prop where
  | self (notBinary : ∀ left right, operand ≠ .binary connective left right) :
      IsOperand connective operand operand
  | left {left right : Formula} (below : IsOperand connective operand left) :
      IsOperand connective operand (.binary connective left right)
  | right {left right : Formula} (below : IsOperand connective operand right) :
      IsOperand connective operand (.binary connective left right)

/-- What may stand at the end of a disjunction: a constant, an atom or the negation of one. -/
inductive IsDisjunct : Formula → Prop where
  | top : IsDisjunct .top
  | bottom : IsDisjunct .bottom
  | atom (leaf : Atom) : IsDisjunct (.atom leaf)
  | negatedAtom (leaf : Atom) : IsDisjunct (.not (.atom leaf))

/-- The operands of the conjunctions are disjunctions of literals and constants. -/
def IsConjunctionOfDisjunctions (formula : Formula) : Prop :=
  ∀ conjunct, IsOperand .and conjunct formula →
    ∀ disjunct, IsOperand .or disjunct conjunct → IsDisjunct disjunct

/-- The operands of a chain are what stands at the ends of its tree. -/
theorem mem_chainOperands {connective : Connective} {operand formula : Formula} :
    operand ∈ formula.chainOperands connective ↔ IsOperand connective operand formula := by
  fun_induction chainOperands connective formula with
  | case1 left right leftHypothesis rightHypothesis =>
    rw [List.mem_append, leftHypothesis, rightHypothesis]
    constructor
    · rintro (inLeft | inRight)
      · exact .left inLeft
      · exact .right inRight
    · intro isOperand
      cases isOperand with
      | self notBinary => exact absurd rfl (notBinary left right)
      | left below => exact .inl below
      | right below => exact .inr below
  | case2 other left right different =>
    rw [List.mem_singleton]
    constructor
    · rintro rfl
      refine .self fun first second same => different ?_
      injection same
    · intro isOperand
      cases isOperand with
      | self _ => rfl
      | left _ | right _ => exact absurd rfl different
  | case3 formula notBinary =>
    rw [List.mem_singleton]
    constructor
    · rintro rfl
      exact .self (notBinary connective)
    · intro isOperand
      cases isOperand with
      | self _ => rfl
      | left _ | right _ => exact absurd rfl (notBinary _ _ _)

/-- The test of a leaf finds the constants, the atoms and their negations. -/
theorem isLeaf_iff {formula : Formula} : formula.isLeaf = true ↔ IsDisjunct formula := by
  constructor
  · intro isLeaf
    cases formula with
    | top => exact .top
    | bottom => exact .bottom
    | atom leaf => exact .atom leaf
    | not operand =>
      obtain ⟨leaf, rfl⟩ := exists_atom_of_literal? isLeaf
      exact .negatedAtom leaf
    | binary _ _ _ => cases isLeaf
  · intro isDisjunct
    cases isDisjunct <;> rfl

/-- What the reader checks is the shape of the formula. -/
theorem isReadable_iff {formula : Formula} :
    formula.isReadable = true ↔ formula.IsConjunctionOfDisjunctions := by
  simp only [isReadable, List.all_eq_true, conjuncts_eq, disjuncts_eq, mem_chainOperands,
    isLeaf_iff, IsConjunctionOfDisjunctions]

end Formula

namespace ClauseSet

/-- Exactly the conjunctions of disjunctions of literals and constants are read, and all others
are refused for not being such. What is read is true under the assignments which make the
formula true. -/
theorem ofFormula_reads (formula : Formula) :
    ((∃ set, ofFormula formula = .ok set) ↔ formula.IsConjunctionOfDisjunctions) ∧
      (ofFormula formula = .error .notClausal ↔ ¬ formula.IsConjunctionOfDisjunctions) ∧
      ∀ set, ofFormula formula = .ok set → ∀ truth,
        (formula.eval truth = true ↔
          ∀ clause ∈ set.clauses, ∃ literal ∈ clause, literal.eval truth = true) := by
  refine ⟨?_, ?_, ?_⟩
  · rw [ofFormula_eq, ← Formula.isReadable_iff]
    split
    case isTrue readable => exact iff_of_true ⟨_, rfl⟩ readable
    case isFalse unreadable =>
      refine iff_of_false ?_ unreadable
      rintro ⟨set, read⟩
      cases read
  · rw [ofFormula_eq, ← Formula.isReadable_iff]
    split
    case isTrue readable => simp [readable]
    case isFalse unreadable => exact iff_of_true rfl unreadable
  · intro set read truth
    rw [← eval_ofFormula read truth, eval_eq_true_iff]
    simp only [Clause.eval_eq_true_iff]

/-- A false constant beside an atom, and a true one beside another. -/
def constantsFormula : Formula :=
  .and (.or (.atom ⟨"G", by decide⟩) .bottom) (.or (.atom ⟨"H", by decide⟩) .top)

/-- The false constant is dropped from its disjunction, and the true one drops the disjunction. -/
theorem ofFormula_reads_constants :
    ofFormula constantsFormula = .ok ⟨[.ofList [⟨⟨"G", by decide⟩, true⟩]]⟩ ∧
      ∀ truth, (constantsFormula.eval truth = true ↔
        ∀ clause ∈ [Clause.ofList [⟨⟨"G", by decide⟩, true⟩]],
          ∃ literal ∈ clause, literal.eval truth = true) := by
  have read : ofFormula constantsFormula = .ok ⟨[.ofList [⟨⟨"G", by decide⟩, true⟩]]⟩ := by decide
  exact ⟨read, (ofFormula_reads constantsFormula).2.2 _ read⟩

/-- A conjunction is refused also beside a true constant. -/
example : ofFormula
    (.or .top (.and (.atom ⟨"G", by decide⟩) (.atom ⟨"H", by decide⟩))) = .error .notClausal := by
  decide

end ClauseSet
end BeliefRevision
