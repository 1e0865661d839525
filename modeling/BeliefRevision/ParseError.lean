/-!
# Errors of reading a formula

A parse error says what stopped the reading of a text and, where there is such a
place, at which character, counted from zero. A text which can be read as a
formula may still fail to be in conjunctive normal form, where that is needed.
-/

namespace BeliefRevision

/-- The greatest number of nested operands, and the greatest depth, of a formula
which is read from text. -/
def depthLimit : Nat := 512

/-- What stopped the reading of a formula. -/
inductive ParseError where
  /-- The text holds no token. -/
  | empty
  /-- The character begins no token and is not blank. -/
  | unknownSymbol (symbol : Char) (position : Nat)
  /-- A closing parenthesis which nothing opened. -/
  | unmatchedClose (position : Nat)
  /-- The parenthesis opened at the position is not closed where its formula ends. -/
  | missingClose (position : Nat)
  /-- A connective or an open parenthesis lacks an operand. -/
  | expectedOperand (position : Nat)
  /-- A complete formula is followed by something else. -/
  | trailingInput (position : Nat)
  /-- The name is not a nonempty run of the letters A to Z. -/
  | invalidAtom (name : String)
  /-- The formula is nested deeper than the limit. -/
  | tooDeep
deriving DecidableEq

namespace ParseError

/-- The character at which reading stopped, where there is one. -/
def position? : ParseError → Option Nat
  | .unknownSymbol _ position => some position
  | .unmatchedClose position => some position
  | .missingClose position => some position
  | .expectedOperand position => some position
  | .trailingInput position => some position
  | .empty => none
  | .invalidAtom _ => none
  | .tooDeep => none

/-- The error in words. -/
def message : ParseError → String
  | .empty => "empty formula"
  | .unknownSymbol symbol position => s!"unknown symbol '{symbol}' at {position}"
  | .unmatchedClose position => s!"unmatched ')' at {position}"
  | .missingClose position => s!"missing ')' for '(' at {position}"
  | .expectedOperand position => s!"expected an operand at {position}"
  | .trailingInput position => s!"unexpected input at {position}"
  | .invalidAtom name => s!"'{name}' is not an atom"
  | .tooDeep => s!"formula nested deeper than {depthLimit}"

end ParseError

/-- What stopped the reading of a formula or of its clauses. -/
inductive FormulaError where
  /-- The text is not a formula. -/
  | parse (cause : ParseError)
  /-- The formula is not a conjunction of disjunctions of literals. -/
  | notClausal
deriving DecidableEq

namespace FormulaError

/-- The character at which reading stopped, where there is one. -/
def position? : FormulaError → Option Nat
  | .parse cause => cause.position?
  | .notClausal => none

/-- The error in words. -/
def message : FormulaError → String
  | .parse cause => cause.message
  | .notClausal => "formula is not in conjunctive normal form"

end FormulaError
end BeliefRevision
