import BeliefRevision.Token.Basic

/-!
# Connectives and precedence

The four binary connectives, in the one table which the reader and the writer of
formulas share: how strongly each binds, which operands it takes without
parentheses, and to which side a chain of it groups. Conjunction and disjunction
group to the left, the arrows to the right.
-/

namespace BeliefRevision

/-- How strongly the root of a formula binds its operands, loosest first. -/
inductive Precedence where
  | iff
  | implies
  | or
  | and
  | not
  | atomic
deriving DecidableEq

/-- The place of the precedence in binding order, counted from the loosest. -/
def Precedence.rank : Precedence → Nat
  | .iff => 0
  | .implies => 1
  | .or => 2
  | .and => 3
  | .not => 4
  | .atomic => 5

/-- A connective of two operands. -/
inductive Connective where
  | and
  | or
  | implies
  | iff
deriving DecidableEq

namespace Connective

/-- The token of the connective. -/
def token : Connective → Token
  | .and => .and
  | .or => .or
  | .implies => .implies
  | .iff => .iff

/-- How strongly the connective binds. -/
def precedence : Connective → Precedence
  | .and => .and
  | .or => .or
  | .implies => .implies
  | .iff => .iff

/-- The next stronger precedence: the least of an operand which is not a chain of
the same connective. -/
def tighter : Connective → Precedence
  | .and => .not
  | .or => .and
  | .implies => .or
  | .iff => .implies

/-- Whether a chain of the connective groups to the right. -/
def groupsRight : Connective → Bool
  | .and => false
  | .or => false
  | .implies => true
  | .iff => true

/-- The least precedence of a left operand without parentheses. -/
def leftLeast (connective : Connective) : Precedence :=
  if connective.groupsRight then connective.tighter else connective.precedence

/-- The least precedence of a right operand without parentheses. Only a left
operand needs them at equal precedence, as both kinds of grouping of a chain of
conjunctions or of disjunctions mean the same. -/
def rightLeast (connective : Connective) : Precedence := connective.precedence

/-- The truth value of a compound from those of its operands. -/
def apply : Connective → Bool → Bool → Bool
  | .and, left, right => left && right
  | .or, left, right => left || right
  | .implies, left, right => !left || right
  | .iff, left, right => left == right

/-- The operands of a chain bind one rank more strongly than the chain itself. -/
theorem rank_tighter (connective : Connective) :
    connective.tighter.rank = connective.precedence.rank + 1 := by
  cases connective <;> rfl

end Connective

namespace Precedence

/-- The connective which binds at the precedence, if there is one. -/
def connective? : Precedence → Option Connective
  | .and => some .and
  | .or => some .or
  | .implies => some .implies
  | .iff => some .iff
  | .not => none
  | .atomic => none

/-- The connective of a precedence is the one which binds at it, as no two bind at one. -/
theorem connective?_eq_some_iff {level : Precedence} {connective : Connective} :
    level.connective? = some connective ↔ connective.precedence = level := by
  cases level <;> cases connective <;> simp [connective?, Connective.precedence]

/-- The number of weaker bindings an operand may pass through before it is a
negation, a constant, an atom or a formula in parentheses. -/
def looseness (level : Precedence) : Nat := 5 - level.rank

/-- A reading which goes on to the operands of a connective comes closer to what binds most
strongly, and so it ends. -/
theorem looseness_tighter {level : Precedence} {connective : Connective}
    (atLevel : level.connective? = some connective) :
    connective.tighter.looseness < level.looseness := by
  cases level <;> cases atLevel <;> decide

end Precedence
end BeliefRevision
