import BeliefRevision.Proofs.Acceptance
import BeliefRevision.Proofs.InputLines
import BeliefRevision.Proofs.Storing

/-!
# Formulas as arguments and as lines

A formula may be given to the program as an argument or as a line of input. An argument is
revised by as it stands. A line is trimmed, and its first character may make it another command.
No formula begins with such a character: a dash is the beginning of an arrow at most, and an
arrow has an operand before it.

The same formulas, given in either way, therefore ask for the same actions in the same order.
-/

namespace BeliefRevision

namespace Token

/-- What was found before comes before all that is still found. -/
theorem prefix_of_scan {position : Nat} {found lexemes : List Lexeme} {characters : List Char}
    (scanned : scan position found characters = .ok lexemes) : found.reverse <+: lexemes := by
  fun_induction scan position found characters with
  | case1 position found =>
    cases scanned
    exact List.prefix_refl _
  | case2 position found first rest blank inductionHypothesis => exact inductionHypothesis scanned
  | case3 position found first rest notBlank unknown => cases scanned
  | case4 position found first rest notBlank token more leads inductionHypothesis =>
    have longer := inductionHypothesis scanned
    rw [List.reverse_cons] at longer
    exact (List.prefix_append _ _).trans longer

/-- The first lexeme of a text is read off its first character which is not blank. -/
theorem first_of_lexemes {text : String} {lexeme : Lexeme} {lexemes : List Lexeme}
    (split : Token.lexemes text = .ok (lexeme :: lexemes)) :
    ∃ first rest more, text.toList.dropWhile Text.isBlank = first :: rest ∧
      leading? first rest = some (lexeme.token, more) := by
  have blank : ∀ character ∈ text.toList.takeWhile Text.isBlank, Text.isBlank character = true :=
    fun character member => List.mem_takeWhile_imp member
  have parts := List.takeWhile_append_dropWhile (p := Text.isBlank) (l := text.toList)
  rw [Token.lexemes, ← parts, scan_blanks blank] at split
  cases kept : text.toList.dropWhile Text.isBlank with
  | nil =>
    rw [kept, scan] at split
    cases split
  | cons first rest =>
    have notBlank : Text.isBlank first = false :=
      Text.head?_dropWhile_isBlank text.toList first (by rw [kept]; rfl)
    rw [kept, scan, if_neg (by simp [notBlank])] at split
    cases leads : leading? first rest with
    | none =>
      rw [leads] at split
      cases split
    | some result =>
      obtain ⟨token, more⟩ := result
      rw [leads] at split
      have isFirst := (List.cons_prefix_cons.mp (prefix_of_scan split)).1
      exact ⟨first, rest, more, rfl, by rw [← isFirst, leads]⟩

end Token

namespace Formula

/-- A text which parses begins, after blanks, with a token that a formula may begin with. -/
theorem first_of_parse {text : String} {formula : Formula} (parsed : parse text = .ok formula) :
    ∃ first rest token more, text.toList.dropWhile Text.isBlank = first :: rest ∧
      Token.leading? first rest = some (token, more) ∧ token.beginsFormula = true := by
  unfold parse at parsed
  cases split : Token.lexemes text with
  | error cause =>
    rw [split] at parsed
    cases parsed
  | ok lexemes =>
    rw [split] at parsed
    obtain ⟨derivation, sameTokens, _⟩ := derivation_of_ofLexemes parsed
    obtain ⟨token, others, tokens, begins⟩ := derivation.exists_beginsFormula rfl
    rw [tokens] at sameTokens
    obtain ⟨lexeme, more, rfl, rfl, _⟩ := List.map_eq_cons_iff.mp sameTokens.symm
    obtain ⟨first, rest, width, kept, leads⟩ := Token.first_of_lexemes split
    exact ⟨first, rest, lexeme.token, width, kept, leads, begins⟩

end Formula

/-- Whether a line which begins with the character may be another command than to revise. -/
def Command.isSign (character : Char) : Bool := [':', '?', '=', '-'].contains character

/-- No token that a formula may begin with is written with the sign of a command first. -/
theorem Token.isSign_of_leading? {first : Char} {rest : List Char} {token : Token} {more : Nat}
    (leads : leading? first rest = some (token, more)) (begins : token.beginsFormula = true) :
    Command.isSign first = false := by
  by_contra isSign
  simp only [Command.isSign, Bool.not_eq_false, List.contains_eq_mem, decide_eq_true_eq,
    List.mem_cons, List.not_mem_nil, or_false] at isSign
  rcases isSign with rfl | rfl | rfl | rfl
  · cases leads
  · cases leads
  · cases leads
  · -- A dash is the beginning of an arrow, or of nothing.
    cases rest with
    | nil => cases leads
    | cons next others =>
      by_cases arrow : next = '>'
      · subst arrow
        cases leads
        cases begins
      · have nothing : leading? '-' (next :: others) = none := by
          simp [leading?, arrow, isAtomLetter]
        rw [nothing] at leads
        cases leads

namespace Text

/-- A text begins with its first character which is not blank once it is trimmed. -/
theorem toList_trim_of_first {text : String} {first : Char} {rest : List Char}
    (kept : text.toList.dropWhile isBlank = first :: rest) :
    ∃ others, (trim text).toList = first :: others := by
  have notBlank : isBlank first = false :=
    head?_dropWhile_isBlank text.toList first (by rw [kept]; rfl)
  have trimmed : (trim text).toList = (first :: rest).rdropWhile isBlank := by
    rw [← kept]
    exact String.toList_ofList
  cases characters : (first :: rest).rdropWhile isBlank with
  | nil =>
    have allBlank := List.rdropWhile_eq_nil_iff.mp characters first List.mem_cons_self
    rw [notBlank] at allBlank
    cases allBlank
  | cons head others =>
    have isFirst := List.rdropWhile_prefix isBlank (first :: rest)
    rw [characters] at isFirst
    obtain ⟨rfl, _⟩ := List.cons_prefix_cons.mp isFirst
    exact ⟨others, trimmed.trans characters⟩

end Text

namespace Command

/-- A line asks for a revision if its first character is no sign of another command. -/
theorem ofLine_of_first {line : String} {first : Char} {rest : List Char}
    (begins : (Text.trim line).toList = first :: rest) (plain : isSign first = false) :
    ofLine line = .revise (Text.trim line) := by
  have notSign (character : Char) (sign : isSign character = true) : first ≠ character := by
    rintro rfl
    rw [plain] at sign
    cases sign
  have notList : Text.trim line ≠ ":list" := by
    intro same
    rw [same] at begins
    exact notSign ':' rfl (List.cons.inj begins).1.symm
  have notQuit : Text.trim line ≠ ":quit" := by
    intro same
    rw [same] at begins
    exact notSign ':' rfl (List.cons.inj begins).1.symm
  unfold ofLine
  dsimp only
  rw [if_neg notList, if_neg notQuit, begins]
  split
  case h_1 isEmpty => cases isEmpty
  case h_2 same => exact absurd (List.cons.inj same).1 (notSign '?' rfl)
  case h_3 same => exact absurd (List.cons.inj same).1 (notSign '=' rfl)
  case h_4 => rfl
  case h_5 same => exact absurd (List.cons.inj same).1 (notSign '-' rfl)
  case h_6 => rfl

/-- A text which parses is no other command than to revise by it. -/
theorem ofLine_of_parse {text : String} {formula : Formula}
    (parsed : Formula.parse text = .ok formula) : ofLine text = .revise (Text.trim text) := by
  obtain ⟨first, rest, token, more, kept, leads, begins⟩ := Formula.first_of_parse parsed
  obtain ⟨others, trimmed⟩ := Text.toList_trim_of_first kept
  exact ofLine_of_first trimmed (Token.isSign_of_leading? leads begins)

end Command

/-- A complaint shows the text trimmed, and so is the same for the trimmed text. -/
theorem Action.complaint_trim (text : String) (error : FormulaError) :
    complaint (Text.trim text) error = complaint text error := by
  simp only [complaint, Text.trim_trim]

namespace Session

/-- A revision trims its text first, and so is the same for the trimmed text. -/
theorem revise_trim (session : Session) (text : String) :
    session.revise (Text.trim text) = session.revise text := by
  simp only [revise, Revision.revise, Text.trim_trim]

/-- The blanks around a formula make no difference to what is answered. -/
theorem answer_revise_trim (options : Options) (session : Session) (text : String) :
    session.answer options (.revise (Text.trim text)) = session.answer options (.revise text) := by
  simp only [answer, answerRevise, revise_trim, Action.complaint_trim]

/-- The session after the commands, and all that they ask for, in order. -/
def answers (options : Options) (session : Session) : List Command → Session × List Action
  | [] => (session, [])
  | command :: commands =>
    let (next, actions) := session.answer options command
    let (last, others) := next.answers options commands
    (last, actions ++ others)

/-- Revisions are answered in the same way whether their texts are trimmed before or not. -/
theorem answers_trim (options : Options) (session : Session) (texts : List String) :
    session.answers options (texts.map fun text => .revise (Text.trim text)) =
      session.answers options (texts.map .revise) := by
  induction texts generalizing session with
  | nil => rfl
  | cons text texts inductionHypothesis =>
    simp only [List.map_cons, answers, answer_revise_trim, inductionHypothesis]

end Session

namespace Run

/-- A run carries out what its commands ask for, and nothing else. -/
theorem performAll_eq_answers (options : Options) (run : Run) (commands : List Command) :
    run.performAll options commands =
      ⟨(run.session.answers options commands).1,
        (run.session.answers options commands).2.foldl Surface.perform run.surface⟩ := by
  induction commands generalizing run with
  | nil => rfl
  | cons command commands inductionHypothesis =>
    have first : run.performAll options (command :: commands) =
        (run.perform options command).performAll options commands := rfl
    rw [first, inductionHypothesis]
    simp only [perform, Session.answers, List.foldl_append]

/-- A run is not broken off at a line which is a text. -/
theorem lines_not_broken (options : Options) (run : Run) (texts : List String) :
    (run.lines options (texts.map some)).2 = true := by
  induction texts generalizing run with
  | nil => rfl
  | cons text texts inductionHypothesis =>
    cases asked : Command.ofLine text with
    | quit => simp only [List.map_cons, lines, asked]
    | _ => simp only [List.map_cons, lines, asked, inductionHypothesis]

/-- Lines which can all be read are answered one after another, and reading does not break off. -/
theorem lines_texts (options : Options) (run : Run) (texts : List String) :
    run.lines options (texts.map some) =
      (run.performAll options (answered (texts.map some)), true) :=
  Prod.ext (lines_eq options run (texts.map some)) (lines_not_broken options run texts)

/-- Lines which parse are answered as revisions, all of them. -/
theorem answered_of_parse {texts : List String}
    (parse : ∀ text ∈ texts, ∃ formula, Formula.parse text = .ok formula) :
    answered (texts.map some) = texts.map fun text => .revise (Text.trim text) := by
  induction texts with
  | nil => rfl
  | cons text texts inductionHypothesis =>
    obtain ⟨formula, parsed⟩ := parse text List.mem_cons_self
    have others := inductionHypothesis fun other member =>
      parse other (List.mem_cons_of_mem text member)
    simp only [List.map_cons, answered, Command.ofLine_of_parse parsed, others]

/-- What the formulas among the arguments are does not matter to how commands are answered. -/
theorem performAll_withFormulas (options : Options) (formulas : List String) (run : Run)
    (commands : List Command) :
    run.performAll { options with formulas := formulas } commands =
      run.performAll options commands := by
  have same : perform { options with formulas := formulas } = perform options := by
    funext run command
    cases command <;> rfl
  rw [performAll, same, performAll]

section
variable {options : Options} {texts : List String} {disk : Disk} {base : Base}
  (loaded : loadBase options disk = .ok base)
include loaded

/-- A run with formulas among its arguments does not look at the input. -/
theorem withOptions_arguments (nonempty : texts ≠ []) (input : List (Option String)) :
    withOptions { options with formulas := texts } input disk =
      (0, ((start options base disk).performAll options (texts.map .revise)).surface) := by
  have sameLoad : loadBase { options with formulas := texts } disk = .ok base := loaded
  have given : texts.isEmpty = false := by simpa using nonempty
  simp only [withOptions, sameLoad, given, Bool.false_eq_true, if_false, formulas_eq,
    performAll_withFormulas]
  rfl

/-- A run without formulas among its arguments answers the lines of the input. -/
theorem withOptions_lines :
    withOptions { options with formulas := [] } (texts.map some) disk =
      (0, ((start options base disk).performAll options (answered (texts.map some))).surface) := by
  have sameLoad : loadBase { options with formulas := [] } disk = .ok base := loaded
  have sameStart : start { options with formulas := [] } base disk = start options base disk := rfl
  have readOn := lines_texts { options with formulas := [] } (start options base disk) texts
  rw [performAll_withFormulas, ← sameStart, start] at readOn
  simp only [withOptions, sameLoad, List.isEmpty_nil, if_true, readOn]
  rfl

end

/-- Formulas are revised by in the same way whether they are arguments or lines of input. The
same actions are asked for, to print, to complain and to save, in the same order, and so the run
ends with the same session and the same surface. So does the program. -/
theorem arguments_eq_lines {texts : List String} (nonempty : texts ≠ [])
    (parse : ∀ text ∈ texts, ∃ formula, Formula.parse text = .ok formula)
    (oneLine : ∀ text ∈ texts, '\n' ∉ text.toList) (options : Options) :
    (∀ text ∈ texts, Command.ofLine text = .revise (Text.trim text)) ∧
    (∀ run : Run, ∃ session actions,
      run.session.answers options (texts.map .revise) = (session, actions) ∧
      run.session.answers options (answered (Input.lines (Input.ofLines texts).toUTF8)) =
        (session, actions) ∧
      run.formulas options texts = ⟨session, actions.foldl Surface.perform run.surface⟩ ∧
      run.lines options (Input.lines (Input.ofLines texts).toUTF8) =
        (⟨session, actions.foldl Surface.perform run.surface⟩, true)) ∧
    ∀ input disk, withOptions { options with formulas := texts } input disk =
      withOptions { options with formulas := [] } (Input.lines (Input.ofLines texts).toUTF8)
        disk := by
  rw [Input.lines_ofLines oneLine]
  have commands : ∀ session : Session, session.answers options (answered (texts.map some)) =
      session.answers options (texts.map .revise) := by
    intro session
    rw [answered_of_parse parse, Session.answers_trim]
  refine ⟨?_, ?_, ?_⟩
  · intro text member
    obtain ⟨formula, parsed⟩ := parse text member
    exact Command.ofLine_of_parse parsed
  · intro run
    refine ⟨_, _, rfl, commands run.session, ?_, ?_⟩
    · rw [formulas_eq, performAll_eq_answers]
    · rw [lines_texts, performAll_eq_answers, commands]
  · intro input disk
    cases loaded : loadBase options disk with
    | error error =>
      have sameLoad (formulas : List String) :
          loadBase { options with formulas := formulas } disk = .error error := loaded
      simp only [withOptions, sameLoad]
    | ok base =>
      rw [withOptions_arguments loaded nonempty, withOptions_lines loaded,
        performAll_eq_answers, performAll_eq_answers, commands]

/-- Two formulas, one with a blank and the end of another system's line around it and one with
an arrow of which the dash is a part, are answered alike as arguments and as lines. -/
theorem arguments_eq_lines_arrow :
    (∀ text ∈ [" A\r", "A->B"], ∃ formula, Formula.parse text = .ok formula) ∧
    (∀ text ∈ [" A\r", "A->B"], '\n' ∉ text.toList) ∧
    (∀ text ∈ [" A\r", "A->B"], Command.ofLine text = .revise (Text.trim text)) ∧
    withOptions { store := some "kb", detail := 1, formulas := [" A\r", "A->B"] } []
        (.ofEntries []) =
      withOptions { store := some "kb", detail := 1 } (Input.lines " A\r\nA->B\n".toUTF8)
        (.ofEntries []) := by
  have parse : ∀ text ∈ [" A\r", "A->B"], ∃ formula, Formula.parse text = .ok formula := by
    intro text member
    rcases List.mem_cons.mp member with rfl | second
    · exact ⟨.atom ⟨"A", by decide⟩, by cbv⟩
    · rw [List.mem_singleton.mp second]
      exact ⟨.implies (.atom ⟨"A", by decide⟩) (.atom ⟨"B", by decide⟩), by cbv⟩
  have oneLine : ∀ text ∈ [" A\r", "A->B"], '\n' ∉ text.toList := by decide
  have written : Input.ofLines [" A\r", "A->B"] = " A\r\nA->B\n" := by decide
  have agree := arguments_eq_lines (by decide) parse oneLine { store := some "kb", detail := 1 }
  rw [written] at agree
  obtain ⟨revisions, _, sameRun⟩ := agree
  exact ⟨parse, oneLine, revisions, sameRun [] (.ofEntries [])⟩

end Run
end BeliefRevision
