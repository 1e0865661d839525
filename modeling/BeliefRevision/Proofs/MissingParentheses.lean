import BeliefRevision.Proofs.ErrorPositions
import BeliefRevision.Proofs.ParenthesisPairs

/-!
# Missing parentheses

The reading of what stands in parentheses ends with a formula. If the next token neither goes on
with that formula nor closes the parentheses, the opening one is blamed, whatever is written
later. Only at the end of the text has it surely not been closed. Otherwise a token stands there
with which another formula begins, and a parenthesis behind that may still close the blamed one.

Behind a formula nothing is open which was not before it, so that it depends on the text from
that token on alone whether the blamed parenthesis is closed.
-/

namespace BeliefRevision

namespace Formula

/-- Lexemes which are refused for a missing parenthesis lack it. -/
theorem lacksClose_of_ofLexemes {finish position : Nat} {lexemes : List Lexeme}
    (refused : ofLexemes lexemes finish = .error (.missingClose position)) :
    LacksClose position lexemes := by
  have nonempty : lexemes ≠ [] := by
    rintro rfl
    cases refused
  rcases refused_ofLexemes nonempty refused with lacks | ⟨_, other, _⟩
  · exact lacks
  · cases other

end Formula

namespace Token

namespace Written

/-- The lexemes of what is written have its tokens, in order. -/
@[simp] theorem map_token_lexemesFrom (position : Nat) (items : List Written) :
    (lexemesFrom position items).map Lexeme.token = items.map token := by
  induction items generalizing position with
  | nil => rfl
  | cons written items inductionHypothesis =>
    rw [lexemesFrom, List.map_cons, List.map_cons, inductionHypothesis]

/-- A token which is written is a lexeme behind what is written before it and its blanks. -/
theorem mem_lexemesFrom (position : Nat) (first : List Written) (written : Written)
    (others : List Written) :
    ⟨written.token, position + (first.flatMap characters ++ written.blanks).length⟩ ∈
      lexemesFrom position (first ++ written :: others) := by
  induction first generalizing position with
  | nil => exact List.mem_cons_self
  | cons next first inductionHypothesis =>
    have later := inductionHypothesis (position + next.characters.length)
    rw [Nat.add_assoc, ← List.length_append, ← List.append_assoc] at later
    exact List.mem_cons_of_mem _ later

end Written

/-- So the token begins there in the text. -/
theorem Writing.beginsAt {writing : Writing} {first others : List Written} {written : Written}
    (split : writing.items = first ++ written :: others) :
    written.token.BeginsAt writing.text
      (first.flatMap Written.characters ++ written.blanks).length := by
  refine ⟨⟨writing.lexemes, writing.lexemes_text, ?_⟩, written.spelling, written.spelled, ?_⟩
  · have member := Written.mem_lexemesFrom 0 first written others
    rwa [Nat.zero_add, ← split] at member
  · have parts : writing.text.toList = (first.flatMap Written.characters ++ written.blanks) ++
        (written.spelling.toList ++ (others.flatMap Written.characters ++ writing.ending)) := by
      simp [Writing.text, Writing.characters, split, Written.characters]
    rw [parts, List.drop_left]
    exact List.prefix_append _ _

end Token

open Token (Writing Written)

/-- Behind the opening parenthesis at the position a formula is written, if perhaps one which is
nested too deeply. It reaches to the stop, where the text ends or another formula begins. -/
structure Formula.ReachesTo (text : String) (position stop : Nat) : Prop where
  opens : text.toList[position]? = some '('
  after : position < stop
  within : stop ≤ text.length
  inside : Formula.parse (String.ofList ((text.toList.take stop).drop (position + 1))) =
      .error .tooDeep ∨
    ∃ formula, Formula.parse (String.ofList ((text.toList.take stop).drop (position + 1))) =
      .ok formula
  ends : stop = text.length ∨
    ∃ token : Token, token.beginsFormula = true ∧ token.BeginsAt text stop

namespace Formula

/-- A writing of a derivation's tokens is parsed, unless it is nested too deeply. -/
theorem parse_writing {writing : Writing} {derivation : Derivation (.level .iff)}
    (same : writing.items.map Written.token = derivation.tokens) :
    parse writing.text = .error .tooDeep ∨ ∃ formula, parse writing.text = .ok formula := by
  have tokens : derivation.tokens = writing.lexemes.map Lexeme.token := by
    rw [Writing.lexemes, Written.map_token_lexemesFrom, same]
  rw [parse, writing.lexemes_text]
  dsimp only
  rw [ofLexemes_of_derivation tokens]
  split
  · exact .inr ⟨_, rfl⟩
  · exact .inl rfl

/-- A parenthesis right before the writing of a formula is closed where the rest of the text behind
that writing closes more parentheses than it opens. -/
theorem reachesTo_of_parts {text : String} {before rest : List Char} (middle : Writing)
    {derivation : Derivation (.level .iff)}
    (parts : text.toList = before ++ '(' :: (middle.characters ++ rest))
    (same : middle.items.map Written.token = derivation.tokens)
    (ends : rest = [] ∨ ∃ token : Token, token.beginsFormula = true ∧
      token.BeginsAt text (before ++ '(' :: middle.characters).length) :
    ∃ stop, ReachesTo text before.length stop ∧
      ((∃ closing, (before.length, closing) ∈ Text.parenthesisPairs text) ↔
        Text.ClosesMore (text.toList.drop stop)) := by
  have split : text.toList = (before ++ '(' :: middle.characters) ++ rest := by
    rw [parts, List.append_assoc, List.cons_append]
  have taken : text.toList.take (before ++ '(' :: middle.characters).length =
      before ++ '(' :: middle.characters := by
    rw [split, List.take_left]
  have left : text.toList.drop (before ++ '(' :: middle.characters).length = rest := by
    rw [split, List.drop_left]
  have inside : (before ++ '(' :: middle.characters).drop (before.length + 1) =
      middle.characters := by
    rw [← List.drop_drop, List.drop_left, List.drop_one, List.tail_cons]
  refine ⟨(before ++ '(' :: middle.characters).length, ⟨?_, ?_, ?_, ?_, ?_⟩, ?_⟩
  · simp [parts]
  · simp
  · rw [← String.length_toList, split]
    exact (List.prefix_append _ rest).length_le
  · rw [taken, inside]
    exact parse_writing same
  · refine ends.imp_left ?_
    rintro rfl
    rw [← String.length_toList, split, List.append_nil]
  · have nested := (derivation.isNested same).append (Written.isNested_blanks middle.blank)
    rw [left, Text.parenthesisPairs, parts]
    exact nested.closed_iff before rest

/-- A parenthesis which is not closed behind its formula among the lexemes of a text stands before
that formula in the text. What is written up to the next lexeme, blanks included, is the formula. -/
theorem LacksClose.reachesTo {text : String} {lexemes : List Lexeme} {position : Nat}
    (lacks : LacksClose position lexemes) (split : Token.lexemes text = .ok lexemes) :
    ∃ stop, ReachesTo text position stop ∧
      ((∃ closing, (position, closing) ∈ Text.parenthesisPairs text) ↔
        Text.ClosesMore (text.toList.drop stop)) := by
  obtain ⟨before, inside, after, rfl, ⟨derivation, complete⟩, begins⟩ := lacks
  obtain ⟨writing, rfl, same⟩ := Token.lexemes_eq_ok_iff.mp split
  obtain ⟨items, ending, apart, blank⟩ := writing
  obtain ⟨first, opening, others, rfl, rfl, isOpening⟩ := Written.exists_of_lexemesFrom same
  obtain ⟨isToken, rfl⟩ := Lexeme.mk.inj isOpening
  -- The tokens behind the parenthesis are those of the formula and those which follow it.
  have tokens : others.map Written.token = inside.map Lexeme.token ++ after.map Lexeme.token := by
    have whole := congrArg (List.map Lexeme.token) same
    simpa [Writing.lexemes, ← isToken] using whole
  obtain ⟨middle, last, rfl, areInside, areAfter⟩ := List.map_eq_append_iff.mp tokens
  have middleApart : middle.IsChain Written.Apart :=
    (List.IsChain.of_cons apart.right_of_append).left_of_append
  have opened := Written.characters_opening isToken.symm
  rw [Nat.zero_add]
  cases last with
  | nil =>
    refine reachesTo_of_parts ⟨middle, ending, middleApart, blank⟩ ?_
      (areInside.trans complete.symm) (.inl rfl)
    simp [Writing.text, Writing.characters, opened]
  | cons next more =>
    obtain ⟨lexeme, later, rfl, isNext, -⟩ := List.map_eq_cons_iff.mp areAfter.symm
    have items : first ++ opening :: (middle ++ next :: more) =
        (first ++ opening :: middle) ++ next :: more := by simp
    have width : (first ++ opening :: middle).flatMap Written.characters ++ next.blanks =
        (first.flatMap Written.characters ++ opening.blanks) ++
          '(' :: (middle.flatMap Written.characters ++ next.blanks) := by
      simp [opened]
    have spelled : next.characters = next.blanks ++ next.spelling.toList := rfl
    have parts : (Writing.mk _ ending apart blank).text.toList =
        (first.flatMap Written.characters ++ opening.blanks) ++
          '(' :: ((Writing.mk middle next.blanks middleApart next.blank).characters ++
            (next.spelling.toList ++ (more.flatMap Written.characters ++ ending))) := by
      simp [Writing.text, Writing.characters, opened, spelled]
    refine reachesTo_of_parts _ parts (areInside.trans complete.symm) (.inr ⟨next.token, ?_, ?_⟩)
    · exact isNext ▸ begins lexeme rfl
    · rw [Writing.characters, ← width]
      exact Writing.beginsAt items

/-- Where a text is refused since a parenthesis is missing, an opening one stands at the position
of the error, and behind it a formula up to where the text ends or another formula begins. The
parenthesis is closed nevertheless exactly where the text from there on closes more parentheses
than it opens. -/
theorem missingClose_closed_iff {text : String} {position : Nat}
    (refused : parse text = .error (.missingClose position)) :
    ∃ stop, ReachesTo text position stop ∧
      ((∃ closing, (position, closing) ∈ Text.parenthesisPairs text) ↔
        Text.ClosesMore (text.toList.drop stop)) := by
  unfold parse at refused
  cases split : Token.lexemes text with
  | error other =>
    rw [split] at refused
    cases refused
    obtain ⟨_, _, same, _⟩ := Token.lexemes_eq_error_iff.mp split
    cases same
  | ok lexemes =>
    rw [split] at refused
    exact (lacksClose_of_ofLexemes refused).reachesTo split

/-- Behind the first parenthesis another formula begins before the first is closed, and the last
parenthesis is missing its closing one. -/
theorem missingClose_closed_iff_nested :
    parse "((A→B) C ∨ (D)) ∧ (E" = .error (.missingClose 0) ∧
    ∃ stop, ReachesTo "((A→B) C ∨ (D)) ∧ (E" 0 stop ∧
      ((∃ closing, (0, closing) ∈ Text.parenthesisPairs "((A→B) C ∨ (D)) ∧ (E") ↔
        Text.ClosesMore ("((A→B) C ∨ (D)) ∧ (E".toList.drop stop)) := by
  have refused : parse "((A→B) C ∨ (D)) ∧ (E" = .error (.missingClose 0) := by cbv
  exact ⟨refused, missingClose_closed_iff refused⟩

/-- A parenthesis is missed which the last one of the text closes. -/
theorem missingClose_closed :
    parse "(A B)" = .error (.missingClose 0) ∧ (0, 4) ∈ Text.parenthesisPairs "(A B)" := by
  have refused : parse "(A B)" = .error (.missingClose 0) := by cbv
  exact ⟨refused, by decide⟩

end Formula

end BeliefRevision
