import BeliefRevision.Atom
import BeliefRevision.ParseError
import BeliefRevision.Text.Blank
import BeliefRevision.Token.Basic

/-!
# Splitting text into tokens

Each connective has a symbol and may also be written in ASCII: `!` or `~` for
negation, `&` and `|` for conjunction and disjunction, `->` and `<->` for the
arrows. A run of the letters A to Z is one atom, taken as long as possible.
Blanks separate tokens. The first character which begins no token and is not
blank is an error, whatever follows.
-/

namespace BeliefRevision.Token

/-- The token which begins with the first character, and how many of the
characters after it belong to the token. -/
def leading? (first : Char) (rest : List Char) : Option (Token × Nat) :=
  if isAtomLetter first then
    let letters := rest.takeWhile isAtomLetter
    some (.atom (String.ofList (first :: letters)), letters.length)
  else
    match first, rest with
    | '¬', _ | '!', _ | '~', _ => some (.not, 0)
    | '∧', _ | '&', _ => some (.and, 0)
    | '∨', _ | '|', _ => some (.or, 0)
    | '→', _ => some (.implies, 0)
    | '↔', _ => some (.iff, 0)
    | '⊤', _ => some (.top, 0)
    | '⊥', _ => some (.bottom, 0)
    | '(', _ => some (.opening, 0)
    | ')', _ => some (.closing, 0)
    | '-', '>' :: _ => some (.implies, 1)
    | '<', '-' :: '>' :: _ => some (.iff, 2)
    | _, _ => none

/-- Reads the tokens of the remaining characters, of which the first stands at
the position. The lexemes found before are in reverse order. -/
def scan (position : Nat) (found : List Lexeme) : List Char → Except ParseError (List Lexeme)
  | [] => .ok found.reverse
  | first :: rest =>
    if Text.isBlank first then scan (position + 1) found rest
    else
      match leading? first rest with
      | none => .error (.unknownSymbol first position)
      | some (token, more) =>
        scan (position + 1 + more) (⟨token, position⟩ :: found) (rest.drop more)
termination_by characters => characters.length
decreasing_by
  · exact Nat.lt_succ_self _
  · exact Nat.lt_succ_of_le (List.length_drop ▸ Nat.sub_le _ _)

/-- The tokens of the text with their positions, or the first unknown symbol. -/
def lexemes (text : String) : Except ParseError (List Lexeme) := scan 0 [] text.toList

end BeliefRevision.Token
