import BeliefRevision.Literal
import BeliefRevision.SortedSet

/-!
# Clauses

A clause is a finite set of literals read as their disjunction. Repeated literals
collapse, and two clauses with the same literals are equal. The empty clause is
true under no assignment. Clauses are ordered lexicographically by their literals.
-/

namespace BeliefRevision

/-- A disjunction of literals. -/
structure Clause where
  literals : SortedSet Literal
deriving DecidableEq, Hashable

namespace Clause

instance : Membership Literal Clause where
  mem clause literal := literal ∈ clause.literals

instance (literal : Literal) (clause : Clause) : Decidable (literal ∈ clause) :=
  inferInstanceAs (Decidable (literal ∈ clause.literals))

/-- The clause without literals. -/
def empty : Clause := ⟨.empty⟩

/-- The clause of the literals in the list. -/
def ofList (literals : List Literal) : Clause := ⟨.ofList literals⟩

/-- The literals in ascending order. -/
def toList (clause : Clause) : List Literal := clause.literals.elements

/-- The number of distinct literals. -/
def size (clause : Clause) : Nat := clause.literals.size

/-- Whether the clause has no literal. -/
def isEmpty (clause : Clause) : Bool := clause.literals.isEmpty

/-- Whether the literal belongs to the clause. -/
def contains (clause : Clause) (literal : Literal) : Bool := clause.literals.contains literal

/-- The clause with the literal added. -/
def insert (clause : Clause) (literal : Literal) : Clause := ⟨clause.literals.insert literal⟩

/-- The clause without the literal. -/
def erase (clause : Clause) (literal : Literal) : Clause := ⟨clause.literals.erase literal⟩

/-- The literals of either clause. -/
def union (left right : Clause) : Clause := ⟨left.literals.union right.literals⟩

/-- Whether some atom occurs in the clause with both polarities. -/
def isTautology (clause : Clause) : Bool :=
  clause.toList.any fun literal => literal.positive && clause.contains literal.negate

/-- The resolvent on a literal which belongs to the first clause and whose negation
belongs to the second: all literals of the two clauses except that pair. -/
def resolveOn (left right : Clause) (literal : Literal) : Option Clause :=
  if left.contains literal && right.contains literal.negate then
    some ((left.erase literal).union (right.erase literal.negate))
  else none

/-- The resolvents of the two clauses, one for each complementary pair, in the
order of the literals of the first. -/
def resolvents (left right : Clause) : List Clause := left.toList.filterMap (left.resolveOn right)

/-- The clause as a disjunction; the empty clause as the constant false. -/
def text (clause : Clause) : String :=
  if clause.isEmpty then "⊥" else String.intercalate "∨" (clause.toList.map Literal.text)

instance : ToString Clause := ⟨text⟩

instance : Ord Clause := ⟨compareOn Clause.toList⟩

instance : Std.TransOrd Clause := inferInstanceAs (Std.TransCmp (compareOn Clause.toList))

/-- Whether some literal of the clause is true when each atom has the given truth
value. -/
def eval (truth : Atom → Bool) (clause : Clause) : Bool :=
  clause.toList.any (Literal.eval truth)

/-- The list of a clause names its literals and nothing else. -/
@[simp] theorem mem_toList {clause : Clause} {literal : Literal} :
    literal ∈ clause.toList ↔ literal ∈ clause := Iff.rfl

/-- A clause made of a list has the literals of the list. -/
@[simp] theorem mem_ofList {literals : List Literal} {literal : Literal} :
    literal ∈ ofList literals ↔ literal ∈ literals := SortedSet.mem_ofList

/-- Insertion adds the one literal to those of the clause. -/
@[simp] theorem mem_insert {clause : Clause} {literal other : Literal} :
    other ∈ clause.insert literal ↔ other = literal ∨ other ∈ clause := SortedSet.mem_insert

/-- Erasing takes the one literal out of the clause. -/
@[simp] theorem mem_erase {clause : Clause} {literal other : Literal} :
    other ∈ clause.erase literal ↔ other ∈ clause ∧ other ≠ literal := SortedSet.mem_erase

/-- The union of two clauses has the literals of both. -/
@[simp] theorem mem_union {left right : Clause} {literal : Literal} :
    literal ∈ left.union right ↔ literal ∈ left ∨ literal ∈ right := SortedSet.mem_union

/-- The test decides whether the literal belongs to the clause. -/
@[simp] theorem contains_iff {clause : Clause} {literal : Literal} :
    clause.contains literal = true ↔ literal ∈ clause := decide_eq_true_iff

/-- Clauses with the same literals are equal. -/
theorem ext {left right : Clause} (same : ∀ literal, literal ∈ left ↔ literal ∈ right) :
    left = right := by
  obtain ⟨leftLiterals⟩ := left
  obtain ⟨rightLiterals⟩ := right
  exact congrArg mk (SortedSet.ext same)

/-- A clause is true exactly when one of its literals is. -/
theorem eval_eq_true_iff {truth : Atom → Bool} {clause : Clause} :
    clause.eval truth = true ↔ ∃ literal ∈ clause, literal.eval truth = true := by
  simp [eval]

end Clause
end BeliefRevision
