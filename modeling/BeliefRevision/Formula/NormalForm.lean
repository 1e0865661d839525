import BeliefRevision.Formula.Parser
import BeliefRevision.Formula.Printer

/-!
# Conjunctive normal form

Four passes over the tree lead to conjunctive normal form.
Arrows are written out in terms of the other connectives; constants are folded
into their surroundings, so that either none is left or the formula is one;
negation is pushed down to the atoms; and disjunction is distributed over
conjunction. Each pass is defined on every formula. Where one meets a formula
which an earlier pass would have removed, it leaves the formula as it stands.
-/

namespace BeliefRevision.Formula

/-- Writes implications and biconditionals in terms of negation, conjunction and
disjunction. -/
def eliminateArrows : Formula → Formula
  | .top => .top
  | .bottom => .bottom
  | .atom leaf => .atom leaf
  | .not operand => .not operand.eliminateArrows
  | .and left right => .and left.eliminateArrows right.eliminateArrows
  | .or left right => .or left.eliminateArrows right.eliminateArrows
  | .implies left right => .or (.not left.eliminateArrows) right.eliminateArrows
  | .iff left right =>
    .and (.or (.not left.eliminateArrows) right.eliminateArrows)
      (.or (.not right.eliminateArrows) left.eliminateArrows)

/-- The negation of a formula whose constants are folded. -/
def foldNot : Formula → Formula
  | .top => .bottom
  | .bottom => .top
  | operand => .not operand

/-- The conjunction of two formulas whose constants are folded. -/
def foldAnd : Formula → Formula → Formula
  | .bottom, _ => .bottom
  | _, .bottom => .bottom
  | .top, right => right
  | left, .top => left
  | left, right => .and left right

/-- The disjunction of two formulas whose constants are folded. -/
def foldOr : Formula → Formula → Formula
  | .top, _ => .top
  | _, .top => .top
  | .bottom, right => right
  | left, .bottom => left
  | left, right => .or left right

/-- Folds the constants into their surroundings. An arrow is left as it stands. -/
def foldConstants : Formula → Formula
  | .top => .top
  | .bottom => .bottom
  | .atom leaf => .atom leaf
  | .not operand => foldNot operand.foldConstants
  | .and left right => foldAnd left.foldConstants right.foldConstants
  | .or left right => foldOr left.foldConstants right.foldConstants
  | .implies left right => .implies left right
  | .iff left right => .iff left right

/-- The formula, or its negation where the sign is not positive, with negation
pushed down to the atoms. An arrow is left as it stands unless it is negated. -/
def signed (positive : Bool) : Formula → Formula
  | .top => if positive then .top else .bottom
  | .bottom => if positive then .bottom else .top
  | .atom leaf => if positive then .atom leaf else .not (.atom leaf)
  | .not operand => operand.signed !positive
  | .and left right =>
    if positive then .and (left.signed true) (right.signed true)
    else .or (left.signed false) (right.signed false)
  | .or left right =>
    if positive then .or (left.signed true) (right.signed true)
    else .and (left.signed false) (right.signed false)
  | .implies left right =>
    if positive then .implies left right
    else .and (left.signed true) (right.signed false)
  | .iff left right =>
    if positive then .iff left right
    else .or (.and (left.signed true) (right.signed false))
      (.and (left.signed false) (right.signed true))

/-- Pushes negation down to the atoms. -/
def pushNegations (formula : Formula) : Formula := formula.signed true

/-- The disjunction of a formula with each conjunct of another. -/
def disjoinRight (left : Formula) : Formula → Formula
  | .and first second => .and (disjoinRight left first) (disjoinRight left second)
  | right => .or left right

/-- The disjunction of each conjunct of a formula with each conjunct of another,
those of the first formula taken in turn. -/
def disjoin : Formula → Formula → Formula
  | .and first second, right => .and (disjoin first right) (disjoin second right)
  | left, right => disjoinRight left right

/-- Distributes disjunction over conjunction. -/
def distribute : Formula → Formula
  | .and left right => .and left.distribute right.distribute
  | .or left right => disjoin left.distribute right.distribute
  | formula => formula

/-- The conjunctive normal form of the formula. -/
def cnf (formula : Formula) : Formula :=
  formula.eliminateArrows.foldConstants.pushNegations.distribute

/-- The conjunctive normal form of the formula written in the text, as text. -/
def normalizeText (text : String) : Except ParseError String :=
  match parse text with
  | .error cause => .error cause
  | .ok formula => .ok formula.cnf.text

/-- A pass which keeps the meaning of every formula. -/
inductive Pass where
  | eliminateArrows
  | foldConstants
  | pushNegations
  | distribute
  | cnf
deriving DecidableEq

/-- The result of the pass. -/
def Pass.apply : Pass → Formula → Formula
  | .eliminateArrows => Formula.eliminateArrows
  | .foldConstants => Formula.foldConstants
  | .pushNegations => Formula.pushNegations
  | .distribute => Formula.distribute
  | .cnf => Formula.cnf

end BeliefRevision.Formula
