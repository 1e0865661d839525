import BeliefRevision.Formula.Parser

/-!
# Reading step by step

What a reading gives does not depend on the bound it carries along. Without the bound
each rule of the descent is an equation: an operand of the next stronger precedence is
read, and then what may follow it.
-/

namespace BeliefRevision

/-- Each connective has a precedence of its own. -/
theorem Connective.eq_of_precedence_eq {first second : Connective}
    (same : first.precedence = second.precedence) : first = second := by
  cases first <;> cases second <;> first | rfl | cases same

/-- The token of a connective tells which one it is. -/
theorem Connective.eq_of_token_eq {first second : Connective} (same : first.token = second.token) :
    first = second := by
  cases first <;> cases second <;> first | rfl | cases same

namespace Formula

/-- The formula which is read and the lexemes after it, or the error. -/
abbrev Outcome := Except ParseError (Formula × List Lexeme)

/-- What a reading gives, without the bound. -/
def outcome {bound : Nat} (reading : Except ParseError (Reading bound)) : Outcome :=
  reading.map fun reading => (reading.formula, reading.rest)

/-- A reading with a result has just this result, together with a proof that its rest is shorter. -/
theorem eq_ok_of_outcome {bound : Nat} {reading : Except ParseError (Reading bound)}
    {formula : Formula} {rest : List Lexeme} (given : outcome reading = .ok (formula, rest)) :
    ∃ shorter, reading = .ok ⟨formula, rest, shorter⟩ := by
  cases reading with
  | error cause => cases given
  | ok result =>
    cases given
    exact ⟨result.shorter, rfl⟩

/-- A reading which fails has just this error. -/
theorem eq_error_of_outcome {bound : Nat} {reading : Except ParseError (Reading bound)}
    {cause : ParseError} (given : outcome reading = .error cause) : reading = .error cause := by
  cases reading with
  | error other =>
    cases given
    rfl
  | ok result => cases given

/-- What is read after the left operand of the connective. -/
def continued (finish : Nat) (connective : Connective) (enclosed : Bool) (room : Nat)
    (left : Formula) (lexemes : List Lexeme) : Outcome :=
  if connective.groupsRight then
    outcome (readRight finish connective enclosed room left lexemes (lexemes.length + 1)
      (Nat.lt_add_one lexemes.length))
  else
    outcome (readChain finish connective enclosed room left lexemes (lexemes.length + 1)
      (Nat.lt_add_one lexemes.length))

variable {finish room : Nat} {connective : Connective} {enclosed : Bool}

/-- What is read to the right of an arrow does not depend on the bound, which only shows that the
reading ends. -/
theorem outcome_readRight (left : Formula) (lexemes : List Lexeme) (first second : Nat)
    (shorter : lexemes.length < first) (alsoShorter : lexemes.length < second) :
    outcome (readRight finish connective enclosed room left lexemes first shorter) =
      outcome (readRight finish connective enclosed room left lexemes second alsoShorter) := by
  unfold readRight
  cases lexemes with
  | nil => rfl
  | cons lexeme rest =>
    dsimp only
    split
    · cases room with
      | zero => rfl
      | succ room =>
        dsimp only
        cases read finish connective.precedence enclosed room rest with
        | error cause => rfl
        | ok reading => rfl
    · rfl

/-- A chain is read in the same way whatever the bound is. The induction is on the
number of lexemes, of which every operand takes some. -/
theorem outcome_readChain (left : Formula) (lexemes : List Lexeme) (first second : Nat)
    (shorter : lexemes.length < first) (alsoShorter : lexemes.length < second) :
    outcome (readChain finish connective enclosed room left lexemes first shorter) =
      outcome (readChain finish connective enclosed room left lexemes second alsoShorter) := by
  induction length : lexemes.length using Nat.strongRecOn generalizing left lexemes with
  | ind count inductionHypothesis =>
    unfold readChain
    cases lexemes with
    | nil => rfl
    | cons lexeme rest =>
      dsimp only
      split
      · cases read finish connective.tighter enclosed room rest with
        | error cause => rfl
        | ok reading =>
          obtain ⟨right, after, fewer⟩ := reading
          rw [List.length_cons] at length
          exact inductionHypothesis after.length (by omega) _ after _ _ rfl
      · rfl

/-- At the precedence of a connective an operand of the next stronger one is read, and
then what continues it. -/
theorem outcome_read_precedence (lexemes : List Lexeme) :
    outcome (read finish connective.precedence enclosed room lexemes) =
      (outcome (read finish connective.tighter enclosed room lexemes)).bind
        fun (left, rest) => continued finish connective enclosed room left rest := by
  conv => lhs; unfold read
  split
  case h_1 other atLevel =>
    rw [Precedence.connective?_eq_some_iff.mpr rfl] at atLevel
    cases atLevel
    cases read finish connective.tighter enclosed room lexemes with
    | error cause => rfl
    | ok reading =>
      obtain ⟨left, rest, shorter⟩ := reading
      show _ = continued finish connective enclosed room left rest
      unfold continued
      dsimp only
      split
      · exact outcome_readRight left rest _ _ _ _
      · exact outcome_readChain left rest _ _ _ _
  case h_2 noLevel =>
    rw [Precedence.connective?_eq_some_iff.mpr rfl] at noLevel
    cases noLevel

/-- Where the connective does not follow, the left operand is all that is read. -/
theorem continued_of_ne {left : Formula} {rest : List Lexeme}
    (stops : ∀ lexeme ∈ rest.head?, lexeme.token ≠ connective.token) :
    continued finish connective enclosed room left rest = .ok (left, rest) := by
  unfold continued
  cases rest with
  | nil =>
    unfold readRight readChain
    split <;> rfl
  | cons lexeme rest =>
    have other : lexeme.token ≠ connective.token := stops lexeme rfl
    unfold readRight readChain
    rw [if_neg other, if_neg other]
    split <;> rfl

/-- An arrow takes what follows at its own precedence as its right operand, if there
is room for a nested reading. -/
theorem continued_right {left : Formula} {lexeme : Lexeme} {rest : List Lexeme}
    (groupsRight : connective.groupsRight = true) (follows : lexeme.token = connective.token) :
    continued finish connective enclosed room left (lexeme :: rest) =
      match room with
      | 0 => .error .tooDeep
      | room + 1 => (outcome (read finish connective.precedence enclosed room rest)).bind
          fun (right, after) => .ok (.binary connective left right, after) := by
  unfold continued
  rw [if_pos groupsRight]
  unfold readRight
  dsimp only
  rw [if_pos follows]
  cases room with
  | zero => rfl
  | succ room =>
    dsimp only
    cases read finish connective.precedence enclosed room rest with
    | error cause => rfl
    | ok reading => rfl

/-- A chain takes one more operand and goes on. -/
theorem continued_chain {left : Formula} {lexeme : Lexeme} {rest : List Lexeme}
    (groupsLeft : connective.groupsRight = false) (follows : lexeme.token = connective.token) :
    continued finish connective enclosed room left (lexeme :: rest) =
      (outcome (read finish connective.tighter enclosed room rest)).bind
        fun (right, after) =>
          continued finish connective enclosed room (.binary connective left right) after := by
  unfold continued
  simp only [groupsLeft, Bool.false_eq_true, if_false]
  conv => lhs; unfold readChain
  rw [if_pos follows]
  cases read finish connective.tighter enclosed room rest with
  | error cause => rfl
  | ok reading =>
    obtain ⟨right, after, fewer⟩ := reading
    exact outcome_readChain _ after _ _ _ _

/-- The true constant is read by its token. -/
theorem outcome_read_top (position : Nat) (rest : List Lexeme) :
    outcome (read finish .not enclosed room (⟨.top, position⟩ :: rest)) = .ok (.top, rest) := by
  unfold read
  rfl

/-- The false constant is read by its token. -/
theorem outcome_read_bottom (position : Nat) (rest : List Lexeme) :
    outcome (read finish .not enclosed room (⟨.bottom, position⟩ :: rest)) =
      .ok (.bottom, rest) := by
  unfold read
  rfl

/-- An atom is read by its name. -/
theorem outcome_read_atom (leaf : Atom) (position : Nat) (rest : List Lexeme) :
    outcome (read finish .not enclosed room (⟨.atom leaf.name, position⟩ :: rest)) =
      .ok (.atom leaf, rest) := by
  have named : Atom.ofName? leaf.name = some leaf := Atom.ofName?_eq_some_iff.mpr rfl
  unfold read
  simp only [Precedence.connective?, named]
  rfl

/-- An operand is missing at the end. -/
theorem outcome_read_nil :
    outcome (read finish .not enclosed room []) = .error (.expectedOperand finish) := by
  unfold read
  rfl

/-- So it is where a connective stands. -/
theorem outcome_read_connective {token : Token} (isConnective : token = connective.token)
    (position : Nat) (rest : List Lexeme) :
    outcome (read finish .not enclosed room (⟨token, position⟩ :: rest)) =
      .error (.expectedOperand position) := by
  subst isConnective
  unfold read
  cases connective <;> rfl

/-- A closing parenthesis where an operand should stand closes another one, or none. -/
theorem outcome_read_closing (position : Nat) (rest : List Lexeme) :
    outcome (read finish .not enclosed room (⟨.closing, position⟩ :: rest)) =
      .error (if enclosed then .expectedOperand position else .unmatchedClose position) := by
  unfold read
  cases enclosed <;> rfl

/-- The text of an atom has to be a name. -/
theorem outcome_read_unnamed {name : String} (unnamed : Atom.ofName? name = none)
    (position : Nat) (rest : List Lexeme) :
    outcome (read finish .not enclosed room (⟨.atom name, position⟩ :: rest)) =
      .error (.invalidAtom name) := by
  unfold read
  simp only [Precedence.connective?, unnamed]
  rfl

/-- The operand of a negation is a nested reading. -/
theorem outcome_read_not (position : Nat) (rest : List Lexeme) :
    outcome (read finish .not enclosed room (⟨.not, position⟩ :: rest)) =
      match room with
      | 0 => .error .tooDeep
      | room + 1 => (outcome (read finish .not enclosed room rest)).bind
          fun (operand, after) => .ok (.not operand, after) := by
  cases room with
  | zero =>
    unfold read
    rfl
  | succ room =>
    conv => lhs; unfold read
    simp only [Precedence.connective?]
    cases read finish .not enclosed room rest with
    | error cause => rfl
    | ok reading => rfl

/-- So is what stands in parentheses, which has to be followed by the closing one. -/
theorem outcome_read_opening (position : Nat) (rest : List Lexeme) :
    outcome (read finish .not enclosed room (⟨.opening, position⟩ :: rest)) =
      match room with
      | 0 => .error .tooDeep
      | room + 1 => (outcome (read finish .iff true room rest)).bind
          fun (inner, after) =>
            match after with
            | ⟨.closing, _⟩ :: after => .ok (inner, after)
            | _ => .error (.missingClose position) := by
  cases room with
  | zero =>
    unfold read
    rfl
  | succ room =>
    conv => lhs; unfold read
    simp only [Precedence.connective?]
    cases read finish .iff true room rest with
    | error cause => rfl
    | ok reading =>
      obtain ⟨inner, after, shorter⟩ := reading
      cases after with
      | nil => rfl
      | cons lexeme after =>
        obtain ⟨token, place⟩ := lexeme
        cases token <;> rfl

end Formula
end BeliefRevision
