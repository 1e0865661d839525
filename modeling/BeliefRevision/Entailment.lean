import BeliefRevision.Resolution

/-!
# Entailment by refutation

Clauses entail a formula exactly when they are inconsistent with its negation. The
negation is brought into normal form as a formula of its own, so that a compound
formula is negated as a whole.
-/

namespace BeliefRevision.Entailment

/-- Whether the formula follows from the sets of clauses. -/
def entails (pruning : Bool) (sets : List ClauseSet) (formula : Formula) :
    Except FormulaError Bool :=
  match ClauseSet.ofFormula (Formula.not formula).cnf with
  | .error cause => .error cause
  | .ok negation => .ok (!Resolution.isConsistent pruning (negation ++ ClauseSet.union sets))

/-- Whether the formula written in the text follows from the sets of clauses. -/
def entailsText (pruning : Bool) (sets : List ClauseSet) (text : String) :
    Except FormulaError Bool :=
  match Formula.parse text with
  | .error cause => .error (.parse cause)
  | .ok formula => entails pruning sets formula

end BeliefRevision.Entailment
