import BeliefRevision.Proofs.FailedReadings
import BeliefRevision.Proofs.FormulaLines
import BeliefRevision.Proofs.Parentheses
import BeliefRevision.Proofs.Refusals

/-!
# Where errors point

An error of reading a text has a position in it, unless it is about the text as a whole. Lexemes
stand where they were written, and what is blamed for a failed reading is a lexeme or the end of
the text. So the position is that of a character, and before it stand as many parentheses as the
error says, as these are written in one way only.

The position is one in the trimmed text. A command may come with blanks around its text, as it
does when the text is an argument, but what is parsed and what is printed above the mark are the
same trimmed text.
-/

namespace BeliefRevision

namespace Text

/-- How many opening parentheses are open after one more character. A closing one closes the
last which is open, if there is one. -/
def openAfter (isOpen : Nat) (character : Char) : Nat :=
  if character = '(' then isOpen + 1
  else if character = ')' then isOpen - 1
  else isOpen

/-- How many opening parentheses among the characters are never closed there. -/
def leftOpen (characters : List Char) : Nat := characters.foldl openAfter 0

/-- One character changes by one at most how many parentheses are open, and an opening one always
adds to it. -/
theorem le_openAfter (isOpen : Nat) (character : Char) :
    isOpen + (if character = '(' then 1 else 0) ≤
      openAfter isOpen character + if character = ')' then 1 else 0 := by
  unfold openAfter
  split
  · omega
  · split <;> omega

/-- Each closing parenthesis closes one at most, and so those which are more are left open. -/
theorem count_le_foldl_openAfter (isOpen : Nat) (characters : List Char) :
    isOpen + characters.count '(' ≤
      characters.foldl openAfter isOpen + characters.count ')' := by
  induction characters generalizing isOpen with
  | nil => exact Nat.le_refl _
  | cons first rest inductionHypothesis =>
    have here := le_openAfter isOpen first
    have later := inductionHypothesis (openAfter isOpen first)
    simp only [List.foldl_cons, List.count_cons, beq_iff_eq]
    omega

/-- Where more parentheses are opened than closed, some are left open. -/
theorem count_le_leftOpen (characters : List Char) :
    characters.count '(' ≤ leftOpen characters + characters.count ')' := by
  have whole := count_le_foldl_openAfter 0 characters
  rwa [Nat.zero_add] at whole

end Text

namespace Token

/-- A lexeme of the text is the token at the position, and one of the forms of the token
stands there. -/
structure BeginsAt (token : Token) (text : String) (position : Nat) : Prop where
  isLexeme : ∃ lexemes, Token.lexemes text = .ok lexemes ∧ ⟨token, position⟩ ∈ lexemes
  stands : ∃ spelling ∈ token.spellings, spelling.toList <+: text.toList.drop position

/-- A token which has no more than one character in any form begins where the character
stands. -/
theorem BeginsAt.symbol {token : Token} {text : String} {position : Nat} {symbol : Char}
    (begins : token.BeginsAt text position)
    (forms : ∀ spelling ∈ token.spellings, spelling.toList = [symbol]) :
    text.toList[position]? = some symbol := by
  obtain ⟨spelling, spelled, rest, same⟩ := begins.stands
  rw [forms spelling spelled] at same
  have first : (text.toList.drop position)[0]? = some symbol := by
    rw [← same]
    rfl
  rwa [List.getElem?_drop] at first

/-- A lexeme among those of some tokens comes from one of them, which stands behind the others
and its blanks. -/
theorem Written.exists_of_lexemesFrom {items : List Written} {position : Nat}
    {before after : List Lexeme} {lexeme : Lexeme}
    (same : lexemesFrom position items = before ++ lexeme :: after) :
    ∃ first written others, items = first ++ written :: others ∧
      lexemesFrom position first = before ∧
      lexeme = ⟨written.token,
        position + (first.flatMap characters ++ written.blanks).length⟩ := by
  induction before generalizing items position with
  | nil =>
    cases items with
    | nil => cases same
    | cons written items => exact ⟨[], written, items, rfl, rfl, (List.cons.inj same).1.symm⟩
  | cons head before inductionHypothesis =>
    cases items with
    | nil => cases same
    | cons next items =>
      obtain ⟨isHead, others⟩ := List.cons.inj same
      obtain ⟨first, written, more, rfl, rfl, rfl⟩ := inductionHypothesis others
      refine ⟨next :: first, written, more, rfl, ?_, ?_⟩
      · rw [lexemesFrom, isHead]
      · simp [Nat.add_assoc]

/-- A text up to one of its lexemes is split into the lexemes before that, and its token begins
where the text goes on. -/
theorem split_at {text : String} {before after : List Lexeme} {lexeme : Lexeme}
    (split : Token.lexemes text = .ok (before ++ lexeme :: after)) :
    Token.lexemes (String.ofList (text.toList.take lexeme.position)) = .ok before ∧
      lexeme.token.BeginsAt text lexeme.position := by
  obtain ⟨writing, rfl, same⟩ := lexemes_eq_ok_iff.mp split
  obtain ⟨items, ending, apart, blank⟩ := writing
  obtain ⟨first, written, others, rfl, rfl, rfl⟩ := Written.exists_of_lexemesFrom same
  let start : Writing := ⟨first, written.blanks, apart.left_of_append, written.blank⟩
  have parts : (Writing.mk (first ++ written :: others) ending apart blank).text.toList =
      start.characters ++ (written.spelling.toList ++
        (others.flatMap Written.characters ++ ending)) := by
    simp [Writing.text, Writing.characters, Written.characters, start]
  have width : 0 + (first.flatMap Written.characters ++ written.blanks).length =
      start.characters.length := Nat.zero_add _
  refine ⟨?_, ⟨_, split, by simp⟩, written.spelling, written.spelled, ?_⟩
  · rw [width, parts, List.take_left]
    exact start.lexemes_text
  · rw [width, parts, List.drop_left]
    exact List.prefix_append _ _

end Token

/-- At the position in the text stands what the error says. -/
def ParseError.PointsAt (text : String) (position : Nat) : ParseError → Prop
  | .unknownSymbol symbol _ => Token.IsUnknownAt text symbol position
  | .unmatchedClose _ => text.toList[position]? = some ')' ∧
      (text.toList.take position).count '(' = (text.toList.take position).count ')'
  | .missingClose _ => text.toList[position]? = some '('
  | .expectedOperand _ => position = text.length ∨
      (∃ connective : Connective, connective.token.BeginsAt text position) ∨
      (text.toList[position]? = some ')' ∧ 0 < Text.leftOpen (text.toList.take position))
  | .trailingInput _ =>
      (∃ token : Token, token.beginsFormula = true ∧ token.BeginsAt text position) ∧
      (Formula.parse (String.ofList (text.toList.take position)) = .error .tooDeep ∨
        ∃ formula, Formula.parse (String.ofList (text.toList.take position)) = .ok formula)
  | .empty => False
  | .invalidAtom _ => False
  | .tooDeep => False

namespace Formula

variable {text : String} {lexemes : List Lexeme} {cause : ParseError} {position : Nat}

/-- The parentheses before a lexeme are those before its position. -/
theorem count_take {before after : List Lexeme} {lexeme : Lexeme}
    (split : Token.lexemes text = .ok (before ++ lexeme :: after)) :
    (text.toList.take lexeme.position).count '(' = openings before ∧
      (text.toList.take lexeme.position).count ')' = closings before := by
  obtain ⟨start, _⟩ := Token.split_at split
  have opened := Token.isMark_opening.count_text start
  have closed := Token.isMark_closing.count_text start
  rw [String.toList_ofList] at opened closed
  exact ⟨opened, closed⟩

/-- Every lexeme of a text begins at its position. -/
theorem beginsAt_of_mem {token : Token} (split : Token.lexemes text = .ok lexemes)
    (member : ⟨token, position⟩ ∈ lexemes) : token.BeginsAt text position := by
  obtain ⟨before, after, rfl⟩ := List.append_of_mem member
  exact (Token.split_at split).2

/-- What is blamed stands at the position of the error. -/
theorem Blames.pointsAt (split : Token.lexemes text = .ok lexemes)
    (blames : Blames text.length false lexemes cause) (placed : cause.position? = some position) :
    cause.PointsAt text position := by
  cases cause with
  | unmatchedClose place =>
    cases placed
    obtain ⟨_, before, after, rfl, balanced⟩ := blames
    obtain ⟨opened, closed⟩ := count_take split
    have here : Token.closing.BeginsAt text position := (Token.split_at split).2
    refine ⟨here.symbol (by decide), ?_⟩
    rw [opened, closed, balanced]
  | missingClose place =>
    cases placed
    obtain ⟨before, inside, after, rfl, _⟩ := blames
    have here : Token.opening.BeginsAt text position := (Token.split_at split).2
    exact here.symbol (by decide)
  | expectedOperand place =>
    cases placed
    rcases blames with atFinish | ⟨connective, member⟩ | ⟨before, after, rfl, isOpen⟩
    · exact .inl atFinish
    · exact .inr (.inl ⟨connective, beginsAt_of_mem split member⟩)
    · have here : Token.closing.BeginsAt text position := (Token.split_at split).2
      refine .inr (.inr ⟨here.symbol (by decide), ?_⟩)
      obtain ⟨opened, closed⟩ := count_take split
      have more := Text.count_le_leftOpen (text.toList.take position)
      rw [opened, closed] at more
      rw [Bool.toNat_false] at isOpen
      omega
  | empty | invalidAtom _ | tooDeep => cases placed
  | unknownSymbol _ _ | trailingInput _ => exact blames.elim

/-- What trails a formula has the formula before it. -/
theorem Trails.pointsAt (split : Token.lexemes text = .ok lexemes)
    (trails : Trails position lexemes) :
    (ParseError.trailingInput position).PointsAt text position := by
  obtain ⟨before, token, after, rfl, notClosing, noConnective, derivation, same⟩ := trails
  obtain ⟨start, begins⟩ := Token.split_at split
  refine ⟨⟨token, Token.beginsFormula_of_ne notClosing noConnective, begins⟩, ?_⟩
  simp only [parse, start, ofLexemes_of_derivation same]
  split
  · exact .inr ⟨_, rfl⟩
  · exact .inl rfl

/-- An error which has a position points at what it says. -/
theorem pointsAt_of_parse (refused : parse text = .error cause)
    (placed : cause.position? = some position) : cause.PointsAt text position := by
  unfold parse at refused
  cases split : Token.lexemes text with
  | error other =>
    rw [split] at refused
    cases refused
    obtain ⟨symbol, place, rfl, unknown⟩ := Token.lexemes_eq_error_iff.mp split
    cases placed
    exact unknown
  | ok lexemes =>
    rw [split] at refused
    by_cases nonempty : lexemes = []
    · subst nonempty
      cases refused
      cases placed
    · rcases refused_ofLexemes nonempty refused with blames | ⟨place, rfl, trails⟩
      · exact blames.pointsAt split placed
      · cases placed
        exact trails.pointsAt split

end Formula

namespace Command

/-- The command is about the formula in the text: a revision, by an argument or a line, or what
else a line asks for. -/
inductive IsAbout : Command → String → Prop
  | revise (text : String) : IsAbout (.revise text) text
  | query {line text : String} (asked : ofLine line = .query text) : IsAbout (.query text) text
  | normalize {line text : String} (asked : ofLine line = .normalize text) :
    IsAbout (.normalize text) text

/-- What follows the sign of a command is trimmed. -/
theorem trim_of_ofLine {line text : String}
    (asked : ofLine line = .query text ∨ ofLine line = .normalize text) :
    Text.trim text = text := by
  unfold ofLine at asked
  dsimp only at asked
  split at asked
  · simp at asked
  · split at asked
    · simp at asked
    · split at asked <;> rcases asked with asked | asked <;> cases asked <;>
        exact Text.trim_trim _

end Command

namespace Session

/-- A command about a text which does not parse once it is trimmed changes nothing, and is
complained about. -/
theorem answer_refused {command : Command} {text : String} {cause : ParseError}
    (options : Options) (session : Session) (about : command.IsAbout text)
    (refused : Formula.parse (Text.trim text) = .error cause) :
    session.answer options command = (session, [Action.complaint text (.parse cause)]) := by
  cases about with
  | revise text =>
    have failed := (session.revise_failsAs text (.parse cause)).mpr ⟨cause, refused, rfl⟩
    simp only [answer, answerRevise, failed]
  | query asked =>
    rw [Command.trim_of_ofLine (.inl asked)] at refused
    have failed := (session.entails_failsAs text (.parse cause)).mpr ⟨cause, refused, rfl⟩
    simp only [answer, answerQuery, failed]
  | normalize asked =>
    rw [Command.trim_of_ofLine (.inr asked)] at refused
    simp only [answer, answerNormalize, Formula.normalizeText, refused]

end Session

namespace Run

/-- Where a text is refused at a position, there stands what the error says. A command about the
text is then answered with nothing but the trimmed text, a mark in the next line with as many
spaces before it as there are characters before the position, and the error in words. -/
theorem points_at_error :
    (∀ text cause position, Formula.parse text = .error cause →
      cause.position? = some position → cause.PointsAt text position) ∧
    ∀ (options : Options) (run : Run) (command : Command) (text : String) (cause : ParseError)
      (position : Nat), command.IsAbout text →
      Formula.parse (Text.trim text) = .error cause → cause.position? = some position →
      run.perform options command =
        ⟨run.session, { run.surface with complaints := run.surface.complaints ++
          (Text.trim text ++ "\n" ++ String.ofList (List.replicate position ' ') ++ "^\n" ++
            cause.message ++ "\n") }⟩ := by
  constructor
  · intro text cause position refused placed
    exact Formula.pointsAt_of_parse refused placed
  · intro options run command text cause position about refused placed
    have marked : (FormulaError.parse cause).position? = some position := placed
    rw [perform, run.session.answer_refused options about refused, Action.complaint, marked]
    rfl

/-- The second operand of the disjunction is missing in front of a parenthesis which closes the
one inside and leaves the first one open. After a pair the same lack is that of an opening
parenthesis. -/
theorem points_at_error_parentheses :
    Formula.parse "(A)∧)" = .error (.unmatchedClose 4) ∧
    (ParseError.unmatchedClose 4).PointsAt "(A)∧)" 4 ∧
    Command.ofLine " ? (A->(B∨) " = .query "(A->(B∨)" ∧
    Formula.parse (Text.trim "(A->(B∨)") = .error (.expectedOperand 7) ∧
    (ParseError.expectedOperand 7).PointsAt (Text.trim "(A->(B∨)") 7 ∧
    perform {} ⟨⟨{}, .empty⟩, ⟨.ofEntries [], "", ""⟩⟩ (.query "(A->(B∨)") =
      ⟨⟨{}, .empty⟩,
        ⟨.ofEntries [], "", "(A->(B∨)\n       ^\nexpected an operand at 7\n"⟩⟩ := by
  have unmatched : Formula.parse "(A)∧)" = .error (.unmatchedClose 4) := by cbv
  have asked : Command.ofLine " ? (A->(B∨) " = .query "(A->(B∨)" := by decide
  have refused : Formula.parse (Text.trim "(A->(B∨)") = .error (.expectedOperand 7) := by cbv
  have complained : "" ++ (Text.trim "(A->(B∨)" ++ "\n" ++ String.ofList (List.replicate 7 ' ') ++
      "^\n" ++ (ParseError.expectedOperand 7).message ++ "\n") =
        "(A->(B∨)\n       ^\nexpected an operand at 7\n" := by decide
  have answered := points_at_error.2 {} ⟨⟨{}, .empty⟩, ⟨.ofEntries [], "", ""⟩⟩ _ _ _ _
    (.query asked) refused rfl
  rw [complained] at answered
  exact ⟨unmatched, points_at_error.1 _ _ _ unmatched rfl, asked, refused,
    points_at_error.1 _ _ _ refused rfl, answered⟩

end Run

end BeliefRevision
