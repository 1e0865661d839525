/-!
# Tokens

The tokens of the language of formulas, and the symbol each is written with. A
token of an atom carries a text, which is checked to be a name only when the
token is read as part of a formula.
-/

namespace BeliefRevision

/-- A word of the language of formulas. -/
inductive Token where
  | atom (name : String)
  | top
  | bottom
  | not
  | and
  | or
  | implies
  | iff
  | opening
  | closing
deriving DecidableEq

/-- The symbol of the token. -/
def Token.text : Token → String
  | .atom name => name
  | .top => "⊤"
  | .bottom => "⊥"
  | .not => "¬"
  | .and => "∧"
  | .or => "∨"
  | .implies => "→"
  | .iff => "↔"
  | .opening => "("
  | .closing => ")"

/-- The symbols of the tokens, one after another. -/
def Token.join (tokens : List Token) : String := String.join (tokens.map Token.text)

/-- A token with the position of its first character in the text it was read from. -/
structure Lexeme where
  token : Token
  position : Nat
deriving DecidableEq

end BeliefRevision
