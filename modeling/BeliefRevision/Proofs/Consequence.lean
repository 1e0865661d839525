import BeliefRevision.Belief.Base
import BeliefRevision.Entailment
import BeliefRevision.Proofs.ClauseReading
import BeliefRevision.Proofs.Refutation
import BeliefRevision.Proofs.Trimming

/-!
# Consequence

Making a belief of a formula and refuting the negation of a formula never fail, since
both read a normal form. A formula is found to follow from some clauses exactly when
it is true under every assignment which makes the clauses true.
-/

namespace BeliefRevision

namespace Belief

/-- The belief in the formula, whatever the formula is. -/
def ofNormalForm (text : String) (formula : Formula) : Belief :=
  ⟨Text.trim text, formula.cnf.text, .ofNormalForm formula⟩

/-- A formula always makes a belief, as its normal form can be read as clauses. -/
theorem ofFormula_eq (text : String) (formula : Formula) :
    ofFormula text formula = .ok (ofNormalForm text formula) := by
  rw [ofFormula, ClauseSet.ofFormula_cnf, ofNormalForm]

/-- The blanks around a text make no difference to the belief. -/
theorem ofNormalForm_trim (text : String) (formula : Formula) :
    ofNormalForm (Text.trim text) formula = ofNormalForm text formula := by
  rw [ofNormalForm, Text.trim_trim, ofNormalForm]

/-- A text makes a belief exactly when it parses without the blanks around it, and then
the belief in the formula which it is parsed to. -/
theorem ofText_eq_ok_iff {text : String} {belief : Belief} :
    ofText text = .ok belief ↔ ∃ formula, Formula.parse (Text.trim text) = .ok formula ∧
      ofNormalForm text formula = belief := by
  unfold ofText
  cases parsed : Formula.parse (Text.trim text) with
  | error cause => simp
  | ok formula => simp [ofFormula_eq, ofNormalForm_trim]

/-- A text makes a belief once its formula is parsed: nothing else can fail. -/
theorem ofText_of_parse {text : String} {formula : Formula}
    (parsed : Formula.parse (Text.trim text) = .ok formula) :
    ofText text = .ok (ofNormalForm text formula) :=
  ofText_eq_ok_iff.mpr ⟨formula, parsed, rfl⟩

/-- A belief in a formula is true where the formula is. -/
@[simp] theorem eval_ofNormalForm (truth : Atom → Bool) (text : String) (formula : Formula) :
    (ofNormalForm text formula).clauses.eval truth = formula.eval truth :=
  ClauseSet.eval_ofNormalForm truth formula

end Belief

namespace Entailment

/-- An entailment is always decided, by the refutation of the negated formula. -/
theorem entails_eq (pruning : Bool) (sets : List ClauseSet) (formula : Formula) :
    entails pruning sets formula =
      .ok (!Resolution.isConsistent pruning
        (ClauseSet.ofNormalForm (.not formula) ++ ClauseSet.union sets)) := by
  rw [entails, ClauseSet.ofFormula_cnf]

/-- Refutation gives a verdict, and the verdict is whether the formula is true wherever
all of the clauses are. -/
theorem entails_verdict (pruning : Bool) (sets : List ClauseSet) (formula : Formula) :
    ∃ verdict, entails pruning sets formula = .ok verdict ∧
      (verdict = true ↔ ∀ truth, (ClauseSet.union sets).eval truth = true →
        formula.eval truth = true) := by
  refine ⟨_, entails_eq pruning sets formula, ?_⟩
  rw [Bool.not_eq_true', Resolution.isConsistent_eq_false_iff]
  constructor
  · intro refuted truth holds
    by_contra isFalse
    apply refuted
    refine ⟨truth, ?_⟩
    simpa [holds, Formula.eval] using isFalse
  · rintro follows ⟨truth, both⟩
    rw [ClauseSet.eval_append, Bool.and_eq_true, ClauseSet.eval_ofNormalForm] at both
    have holds := follows truth both.2
    simp [Formula.eval, holds] at both

/-- Entailment is consequence, and there is a verdict on every formula. It is positive
exactly when the formula is true under each assignment which makes a literal true in
every clause of every set. -/
theorem entails_decides (pruning : Bool) (sets : List ClauseSet) (formula : Formula) :
    ∃ verdict, entails pruning sets formula = .ok verdict ∧
      (verdict = true ↔ ∀ truth : Atom → Bool,
        (∀ set ∈ sets, ∀ clause ∈ set.clauses, ∃ literal ∈ clause, literal.eval truth = true) →
          formula.eval truth = true) := by
  obtain ⟨verdict, given, exactly⟩ := entails_verdict pruning sets formula
  refine ⟨verdict, given, exactly.trans ?_⟩
  simp only [ClauseSet.eval_union, List.all_eq_true, ClauseSet.eval_eq_true_iff,
    Clause.eval_eq_true_iff]

end Entailment

namespace Base

/-- The clauses of a base are true exactly when those of each belief are. -/
theorem eval_clauses_iff {truth : Atom → Bool} {base : Base} :
    base.clauses.eval truth = true ↔
      ∀ belief ∈ base.beliefs, belief.clauses.eval truth = true := by
  simp only [clauses, clauseSets, ClauseSet.eval_union, List.all_map, List.all_eq_true]
  rfl

/-- Some assignment makes the clauses of the base true together with the formula. -/
def Admits (base : Base) (formula : Formula) : Prop :=
  ∃ truth, base.clauses.eval truth = true ∧ formula.eval truth = true

/-- Every assignment which makes the clauses of the base true makes the formula true. -/
def Entails (base : Base) (formula : Formula) : Prop :=
  ∀ truth, base.clauses.eval truth = true → formula.eval truth = true

/-- A base entails what one of its beliefs means. -/
theorem entails_of_mem {base : Base} {belief : Belief} {formula : Formula}
    (member : belief ∈ base.beliefs)
    (meaning : ∀ truth, belief.clauses.eval truth = formula.eval truth) :
    base.Entails formula := by
  intro truth holds
  rw [← meaning]
  exact eval_clauses_iff.mp holds belief member

/-- The verdict on a negation is negative exactly when the base admits the formula. -/
theorem entails_not_iff {pruning verdict : Bool} {base : Base} {formula : Formula} :
    Entailment.entails pruning base.clauseSets (.not formula) = .ok verdict ↔
      (verdict = false ↔ base.Admits formula) := by
  obtain ⟨given, same, exactly⟩ :=
    Entailment.entails_verdict pruning base.clauseSets (.not formula)
  have admits : given = false ↔ base.Admits formula := by
    rw [← Bool.not_eq_true, exactly]
    simp [Admits, clauses, Formula.eval]
  rw [same, Except.ok.injEq, ← admits]
  cases given <;> cases verdict <;> decide

end Base
end BeliefRevision
