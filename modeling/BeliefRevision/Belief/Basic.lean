import BeliefRevision.Clause.ClauseSet

/-!
# Beliefs

A belief is the text of a formula as it was entered, together with its normal form
and the clauses of that, made once so that no later check returns to the text. The
text is kept without the blanks at its ends.
-/

namespace BeliefRevision

/-- A formula which is held to be true. -/
structure Belief where
  /-- The formula as entered. -/
  text : String
  /-- The normal form. -/
  cnf : String
  /-- The clauses of the normal form. -/
  clauses : ClauseSet
deriving DecidableEq

namespace Belief

/-- The belief in a formula which was read from the text. -/
def ofFormula (text : String) (formula : Formula) : Except FormulaError Belief :=
  match ClauseSet.ofFormula formula.cnf with
  | .error cause => .error cause
  | .ok clauses => .ok ⟨Text.trim text, formula.cnf.text, clauses⟩

/-- The belief in the formula written in the text. -/
def ofText (text : String) : Except FormulaError Belief :=
  match Formula.parse (Text.trim text) with
  | .error cause => .error (.parse cause)
  | .ok formula => ofFormula (Text.trim text) formula

/-- The belief with that text and normal form, neither of which is changed apart
from trimming the text. Whether the two agree is not asked. -/
def ofRecord (text cnf : String) : Except FormulaError Belief :=
  match ClauseSet.parse cnf with
  | .error cause => .error cause
  | .ok clauses => .ok ⟨Text.trim text, cnf, clauses⟩

instance : ToString Belief := ⟨text⟩

end Belief
end BeliefRevision
