import BeliefRevision.Json.Number
import BeliefRevision.Json.Quoted

/-!
# Tokens of JSON

JSON text is split into tokens before its nesting is looked at. Of a number only its
range is kept, and of a text whether it is whole.
-/

namespace BeliefRevision.Json

/-- A word of JSON. -/
inductive Token where
  | null
  | boolean (value : Bool)
  /-- A number, and whether it is within the range of doubles. -/
  | number (finite : Bool)
  /-- A text, or nothing where half of a pair of units stands alone. -/
  | string (text : Option String)
  | openArray
  | closeArray
  | openObject
  | closeObject
  | comma
  | colon
deriving DecidableEq

/-- The characters between tokens. -/
def isGap (character : Char) : Bool :=
  character == ' ' || character == '\t' || character == '\n' || character == '\r'

/-- The token which begins with the first character, and how many of the
characters after it belong to the token. -/
def Token.leading? (first : Char) (rest : List Char) : Option (Token × Nat) :=
  match first with
  | '[' => some (.openArray, 0)
  | ']' => some (.closeArray, 0)
  | '\x7b' => some (.openObject, 0)
  | '\x7d' => some (.closeObject, 0)
  | ',' => some (.comma, 0)
  | ':' => some (.colon, 0)
  | '"' => (quoted? [] 0 rest).map fun (units, taken) =>
    (.string ((decodeUnits? units).map String.ofList), taken)
  | 'n' => if rest.take 3 = ['u', 'l', 'l'] then some (.null, 3) else none
  | 't' => if rest.take 3 = ['r', 'u', 'e'] then some (.boolean true, 3) else none
  | 'f' => if rest.take 4 = ['a', 'l', 's', 'e'] then some (.boolean false, 4) else none
  | '-' => (magnitude? rest).map fun (magnitude, length) => (.number magnitude.isFinite, length)
  | _ => (magnitude? (first :: rest)).map fun (magnitude, length) =>
    (.number magnitude.isFinite, length - 1)

/-- Reads the tokens of the characters, those found before being in reverse. -/
def Token.scan (found : List Token) : List Char → Option (List Token)
  | [] => some found.reverse
  | first :: rest =>
    if isGap first then Token.scan found rest
    else
      match Token.leading? first rest with
      | none => none
      | some (token, more) => Token.scan (token :: found) (rest.drop more)
termination_by characters => characters.length
decreasing_by
  · exact Nat.lt_succ_self _
  · exact Nat.lt_succ_of_le (List.length_drop ▸ Nat.sub_le _ _)

/-- The tokens of the text. -/
def Token.ofText? (text : String) : Option (List Token) := Token.scan [] text.toList

end BeliefRevision.Json
