import BeliefRevision.Clause.Basic
import BeliefRevision.Formula.NormalForm

/-!
# Sets of clauses

A set of clauses is a sequence of clauses read as their conjunction. The order and
the repeats of a sequence mean nothing, and are kept for the sake of its text.

A formula in conjunctive normal form is read off as a set of clauses: the operands
of the conjunctions at its top are disjunctions of leaves, each a literal or a
constant. A false leaf adds nothing to its clause, and a true leaf makes the
clause true, so that it is left out. Leaves beside a true one are still checked.
-/

namespace BeliefRevision

namespace Formula

/-- The operands of the conjunctions at the top of the formula. -/
def conjuncts : Formula → List Formula
  | .and left right => left.conjuncts ++ right.conjuncts
  | formula => [formula]

/-- The operands of the disjunctions at the top of the formula. -/
def disjuncts : Formula → List Formula
  | .or left right => left.disjuncts ++ right.disjuncts
  | formula => [formula]

/-- Whether the formula is a constant or a literal. -/
def isLeaf (formula : Formula) : Bool :=
  formula == .top || formula == .bottom || formula.literal?.isSome

/-- The clause of a disjunction of leaves, or nothing for one which is true by a
leaf. -/
def clause? (formula : Formula) : Except FormulaError (Option Clause) :=
  let leaves := formula.disjuncts
  if leaves.all isLeaf then
    .ok (if leaves.contains .top then none else some (.ofList (leaves.filterMap literal?)))
  else .error .notClausal

end Formula

/-- A conjunction of clauses. -/
structure ClauseSet where
  clauses : List Clause
deriving DecidableEq

namespace ClauseSet

/-- The set without clauses, which is true. -/
def empty : ClauseSet := ⟨[]⟩

/-- The number of clauses. -/
def size (set : ClauseSet) : Nat := set.clauses.length

/-- Whether there is no clause. -/
def isEmpty (set : ClauseSet) : Bool := set.clauses.isEmpty

/-- The set with the clause at its end. -/
def push (set : ClauseSet) (clause : Clause) : ClauseSet := ⟨set.clauses ++ [clause]⟩

/-- The clauses of the first set and then those of the second. -/
def append (first second : ClauseSet) : ClauseSet := ⟨first.clauses ++ second.clauses⟩

instance : Append ClauseSet := ⟨append⟩

/-- The clauses of all the sets, in order. -/
def union (sets : List ClauseSet) : ClauseSet := ⟨sets.flatMap clauses⟩

/-- The size of the largest clause, or zero if there is none. -/
def width (set : ClauseSet) : Nat := (set.clauses.map Clause.size).foldl max 0

/-- Whether the empty clause is among the clauses. -/
def hasEmptyClause (set : ClauseSet) : Bool := set.clauses.any Clause.isEmpty

/-- The clauses of a formula in conjunctive normal form. -/
def ofFormula (formula : Formula) : Except FormulaError ClauseSet :=
  match formula.conjuncts.mapM Formula.clause? with
  | .error cause => .error cause
  | .ok clauses => .ok ⟨clauses.filterMap id⟩

/-- The clauses of the text of a formula in conjunctive normal form. -/
def parse (text : String) : Except FormulaError ClauseSet :=
  match Formula.parse text with
  | .error cause => .error (.parse cause)
  | .ok formula => ofFormula formula

/-- The set as a conjunction; the empty set as the constant true. A clause of
several literals stands in parentheses where there are several clauses. -/
def text (set : ClauseSet) : String :=
  let operand (clause : Clause) : String :=
    if set.size > 1 && clause.size > 1 then "(" ++ clause.text ++ ")" else clause.text
  if set.isEmpty then "⊤" else String.intercalate "∧" (set.clauses.map operand)

instance : ToString ClauseSet := ⟨text⟩

/-- The distinct clauses in ascending order. -/
def sorted (set : ClauseSet) : SortedSet Clause := .ofList set.clauses

/-- Whether every clause is true when each atom has the given truth value. -/
def eval (truth : Atom → Bool) (set : ClauseSet) : Bool := set.clauses.all (Clause.eval truth)

/-- Whether some assignment makes every clause true. -/
def Satisfiable (set : ClauseSet) : Prop := ∃ truth, set.eval truth = true

/-- Clauses are true together exactly when each of them is, and so the empty set is true. -/
theorem eval_eq_true_iff {truth : Atom → Bool} {set : ClauseSet} :
    set.eval truth = true ↔ ∀ clause ∈ set.clauses, clause.eval truth = true := by
  simp [eval]

/-- Two lists of clauses are true together when both are. -/
@[simp] theorem eval_append (truth : Atom → Bool) (first second : ClauseSet) :
    (first ++ second).eval truth = (first.eval truth && second.eval truth) :=
  List.all_append

/-- The union of sets of clauses is true exactly when all of the sets are. -/
@[simp] theorem eval_union (truth : Atom → Bool) (sets : List ClauseSet) :
    (union sets).eval truth = sets.all (eval truth) := List.all_flatMap

end ClauseSet
end BeliefRevision
