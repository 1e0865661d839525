import BeliefRevision.Formula.Basic

/-!
# Writing formulas

A formula is written by way of its tokens. An operand stands in parentheses where
it binds more loosely than its place allows. Chains of conjunctions and chains of
disjunctions need none, as each is associative. The arrows group to the right, so
the left operand of an arrow also stands in parentheses when it is the same arrow.
-/

namespace BeliefRevision.Formula

/-- The tokens of an operand, in parentheses where it binds more loosely than the
least precedence its place allows. -/
def enclose (least : Precedence) (operand : Formula) (tokens : List Token) : List Token :=
  if operand.precedence.rank < least.rank then .opening :: tokens ++ [.closing] else tokens

/-- The tokens the formula is written with. -/
def tokens : Formula → List Token
  | .top => [.top]
  | .bottom => [.bottom]
  | .atom leaf => [.atom leaf.name]
  | .not operand => .not :: enclose .not operand operand.tokens
  | .binary connective left right =>
    enclose connective.leftLeast left left.tokens ++
      connective.token :: enclose connective.rightLeast right right.tokens

/-- The formula as text, without blanks. -/
def text (formula : Formula) : String := Token.join formula.tokens

instance : ToString Formula := ⟨text⟩

end BeliefRevision.Formula
