import BeliefRevision.Formula.Basic
import BeliefRevision.Token.Lexer

/-!
# Reading formulas

Reading by recursive descent, loosest connective first. At the precedence of a
connective an operand of the next stronger one is read, and then, while the
connective follows, further operands: conjunctions and disjunctions gather to the
left in a loop, an arrow takes all that follows at its own precedence as its right
operand. Each reading leaves fewer lexemes than it was given, which is why the
descent ends.

Negations, parentheses and the right operands of arrows are nested readings.
Their number is limited, and so is the depth of the finished formula, which long
chains reach without nesting.
-/

namespace BeliefRevision.Formula

/-- A formula read from the front of a list of fewer than `bound` lexemes and the
lexemes which follow it. -/
structure Reading (bound : Nat) where
  formula : Formula
  rest : List Lexeme
  shorter : rest.length < bound

mutual

/-- Reads a formula which binds at least as strongly as the level. The text ends
at `finish`; `enclosed` says whether an open parenthesis stands before, and `room`
is the number of readings which may still be nested. -/
def read (finish : Nat) (level : Precedence) (enclosed : Bool) (room : Nat)
    (lexemes : List Lexeme) : Except ParseError (Reading lexemes.length) :=
  match _ : level.connective? with
  | some connective =>
    match read finish connective.tighter enclosed room lexemes with
    | .error cause => .error cause
    | .ok ⟨left, rest, shorter⟩ =>
      if connective.groupsRight then
        readRight finish connective enclosed room left rest lexemes.length shorter
      else
        readChain finish connective enclosed room left rest lexemes.length shorter
  | none =>
    match lexemes with
    | [] => .error (.expectedOperand finish)
    | ⟨token, position⟩ :: rest =>
      match token with
      | .top => .ok ⟨.top, rest, Nat.lt_succ_self _⟩
      | .bottom => .ok ⟨.bottom, rest, Nat.lt_succ_self _⟩
      | .atom name =>
        match Atom.ofName? name with
        | some leaf => .ok ⟨.atom leaf, rest, Nat.lt_succ_self _⟩
        | none => .error (.invalidAtom name)
      | .not =>
        match room with
        | 0 => .error .tooDeep
        | room + 1 =>
          match read finish .not enclosed room rest with
          | .error cause => .error cause
          | .ok ⟨operand, after, shorter⟩ => .ok ⟨.not operand, after, Nat.lt_succ_of_lt shorter⟩
      | .opening =>
        match room with
        | 0 => .error .tooDeep
        | room + 1 =>
          match read finish .iff true room rest with
          | .error cause => .error cause
          | .ok ⟨inner, ⟨.closing, _⟩ :: after, shorter⟩ =>
            .ok ⟨inner, after, Nat.lt_succ_of_lt (Nat.lt_of_succ_lt shorter)⟩
          | .ok _ => .error (.missingClose position)
      | .closing =>
        if enclosed then .error (.expectedOperand position) else .error (.unmatchedClose position)
      | .and | .or | .implies | .iff => .error (.expectedOperand position)
termination_by (lexemes.length, level.looseness, 1)
decreasing_by
  · exact Prod.Lex.right _ (Prod.Lex.left _ _ (Precedence.looseness_tighter ‹_›))
  · exact Prod.Lex.left _ _ shorter
  · exact Prod.Lex.left _ _ shorter
  · exact Prod.Lex.left _ _ (Nat.lt_succ_self _)
  · exact Prod.Lex.left _ _ (Nat.lt_succ_self _)

/-- Reads the right operand of an arrow, if the arrow follows the left one. -/
def readRight (finish : Nat) (connective : Connective) (enclosed : Bool) (room : Nat)
    (left : Formula) (lexemes : List Lexeme) (bound : Nat) (shorter : lexemes.length < bound) :
    Except ParseError (Reading bound) :=
  match lexemes with
  | [] => .ok ⟨left, [], shorter⟩
  | lexeme :: rest =>
    if lexeme.token = connective.token then
      match room with
      | 0 => .error .tooDeep
      | room + 1 =>
        match read finish connective.precedence enclosed room rest with
        | .error cause => .error cause
        | .ok ⟨right, after, fewer⟩ =>
          .ok ⟨.binary connective left right, after,
            Nat.lt_trans fewer (Nat.lt_of_succ_lt shorter)⟩
    else .ok ⟨left, lexeme :: rest, shorter⟩
termination_by (lexemes.length, 0, 0)
decreasing_by exact Prod.Lex.left _ _ (Nat.lt_succ_self _)

/-- Reads further operands of a chain, as long as the connective follows. -/
def readChain (finish : Nat) (connective : Connective) (enclosed : Bool) (room : Nat)
    (left : Formula) (lexemes : List Lexeme) (bound : Nat) (shorter : lexemes.length < bound) :
    Except ParseError (Reading bound) :=
  match lexemes with
  | [] => .ok ⟨left, [], shorter⟩
  | lexeme :: rest =>
    if lexeme.token = connective.token then
      match read finish connective.tighter enclosed room rest with
      | .error cause => .error cause
      | .ok ⟨right, after, fewer⟩ =>
        readChain finish connective enclosed room (.binary connective left right) after bound
          (Nat.lt_trans fewer (Nat.lt_of_succ_lt shorter))
    else .ok ⟨left, lexeme :: rest, shorter⟩
termination_by (lexemes.length, 0, 0)
decreasing_by
  · exact Prod.Lex.left _ _ (Nat.lt_succ_self _)
  · exact Prod.Lex.left _ _ (Nat.lt_succ_of_lt fewer)

end

/-- The formula which the lexemes of a text of length `finish` make up. -/
def ofLexemes (lexemes : List Lexeme) (finish : Nat) : Except ParseError Formula :=
  match lexemes with
  | [] => .error .empty
  | first :: more =>
    match read finish .iff false depthLimit (first :: more) with
    | .error cause => .error cause
    | .ok ⟨formula, [], _⟩ =>
      if formula.depth > depthLimit then .error .tooDeep else .ok formula
    | .ok ⟨_, ⟨.closing, position⟩ :: _, _⟩ => .error (.unmatchedClose position)
    | .ok ⟨_, ⟨_, position⟩ :: _, _⟩ => .error (.trailingInput position)

/-- The formula written in the text. -/
def parse (text : String) : Except ParseError Formula :=
  match Token.lexemes text with
  | .error cause => .error cause
  | .ok lexemes => ofLexemes lexemes text.length

end BeliefRevision.Formula
