import BeliefRevision.Proofs.Acceptance
import BeliefRevision.Proofs.Grouping
import BeliefRevision.Proofs.Writings

/-!
# Counting parentheses

A parenthesis is written in one way only, and no other token is written with its character. So
a text has as many of these characters as there are tokens of the parenthesis.

In a derivation of a formula an operand which binds more loosely than its place allows stands in
parentheses, as no rule derives it there without them. These are all the parentheses which are
printed, and therefore nothing that is read as the formula, or as the formula with its chains
grouped in another way, has fewer of them.
-/

namespace BeliefRevision

namespace Token

/-- The token is written with the one character, which is a part of no other token and of no
blank. -/
structure IsMark (token : Token) (symbol : Char) : Prop where
  notBlank : Text.isBlank symbol = false
  count : ∀ other : Token, other.isNamed = true → ∀ spelling ∈ other.spellings,
    spelling.toList.count symbol = if other = token then 1 else 0

/-- No letter of a name is the character. -/
theorem count_name {name : String} {symbol : Char} (named : isAtomName name = true)
    (noLetter : isAtomLetter symbol = false) : name.toList.count symbol = 0 := by
  rw [List.count_eq_zero]
  intro member
  have letters := (Bool.and_eq_true_iff.mp named).2
  rw [List.all_eq_true.mp letters symbol member] at noLetter
  cases noLetter

/-- For a character which is no letter it is enough to look at the forms of the tokens which are
no atoms. -/
theorem IsMark.ofForms {mark : Token} {symbol : Char} (notBlank : Text.isBlank symbol = false)
    (noLetter : isAtomLetter symbol = false) (notAtom : mark.isAtom = false)
    (forms : ∀ other : Token, other.isAtom = false → ∀ spelling ∈ other.spellings,
      spelling.toList.count symbol = if other = mark then 1 else 0) : IsMark mark symbol where
  notBlank := notBlank
  count := by
    intro other named spelling spelled
    cases other with
    | atom name =>
      have different : Token.atom name ≠ mark := by
        rintro rfl
        cases notAtom
      rw [List.mem_singleton.mp spelled, if_neg different]
      exact count_name named noLetter
    | top | bottom | not | and | or | implies | iff | opening | closing =>
      exact forms _ rfl spelling spelled

/-- The opening parenthesis is written in one way, and its character in no other token. -/
theorem isMark_opening : IsMark .opening '(' := by
  refine .ofForms (by decide) (by decide) rfl ?_
  intro other notAtom
  cases other with
  | atom name => cases notAtom
  | _ => decide

/-- So is the closing parenthesis. -/
theorem isMark_closing : IsMark .closing ')' := by
  refine .ofForms (by decide) (by decide) rfl ?_
  intro other notAtom
  cases other with
  | atom name => cases notAtom
  | _ => decide

variable {mark : Token} {symbol : Char}

/-- No blank is a mark. -/
theorem IsMark.count_blanks (isMark : IsMark mark symbol) {blanks : List Char}
    (blank : ∀ character ∈ blanks, Text.isBlank character = true) : blanks.count symbol = 0 := by
  rw [List.count_eq_zero]
  intro member
  have isBlank := blank symbol member
  rw [isMark.notBlank] at isBlank
  cases isBlank

/-- A token which is written has the mark once where it is the token of the mark, and not at all
otherwise. -/
theorem IsMark.count_written (isMark : IsMark mark symbol) (written : Written) :
    written.characters.count symbol = if written.token = mark then 1 else 0 := by
  rw [Written.characters, List.count_append, isMark.count_blanks written.blank, Nat.zero_add]
  exact isMark.count written.token written.named written.spelling written.spelled

/-- Tokens which are written one after another have as many marks as there are lexemes with the
token. -/
theorem IsMark.count_items (isMark : IsMark mark symbol) (position : Nat) (items : List Written) :
    (items.flatMap Written.characters).count symbol =
      ((Written.lexemesFrom position items).map Lexeme.token).count mark := by
  induction items generalizing position with
  | nil => rfl
  | cons written items inductionHypothesis =>
    rw [List.flatMap_cons, List.count_append, isMark.count_written,
      inductionHypothesis (position + written.characters.length), Written.lexemesFrom,
      List.map_cons, List.count_cons, Nat.add_comm]
    simp only [beq_iff_eq]

/-- The character is written as often as the token. -/
theorem IsMark.count_text (isMark : IsMark mark symbol) {text : String} {lexemes : List Lexeme}
    (split : Token.lexemes text = .ok lexemes) :
    text.toList.count symbol = (lexemes.map Lexeme.token).count mark := by
  obtain ⟨writing, rfl, rfl⟩ := lexemes_eq_ok_iff.mp split
  rw [Writing.text, String.toList_ofList, Writing.characters, List.count_append,
    isMark.count_blanks writing.blank, Nat.add_zero]
  exact isMark.count_items 0 writing.items

end Token

namespace Formula

/-- Enclosing an operand which binds too weakly opens one parenthesis more. -/
theorem count_enclose (least : Precedence) (operand : Formula) (tokens : List Token) :
    (enclose least operand tokens).count .opening =
      tokens.count .opening + if operand.precedence.rank < least.rank then 1 else 0 := by
  unfold enclose
  split
  · simp
  · rfl

/-- A place which allows more needs parentheses no more often. -/
theorem count_enclose_mono {least stronger : Precedence} (le : least.rank ≤ stronger.rank)
    (operand : Formula) (tokens : List Token) :
    (enclose least operand tokens).count .opening ≤
      (enclose stronger operand tokens).count .opening := by
  rw [count_enclose, count_enclose]
  split
  case isTrue looser => rw [if_pos (Nat.lt_of_lt_of_le looser le)]
  case isFalse => exact Nat.le_add_right _ _

/-- What binds as strongly as its place allows stands without parentheses. -/
theorem enclose_of_le {least : Precedence} {operand : Formula}
    (le : least.rank ≤ operand.precedence.rank) (tokens : List Token) :
    enclose least operand tokens = tokens := if_neg (Nat.not_lt.mpr le)

/-- A compound is printed with the parentheses of its operands and no others. -/
theorem count_binary_le {connective : Connective} {left right : Formula}
    {before after : List Token}
    (leftLe : (enclose connective.leftLeast left left.tokens).count .opening ≤
      before.count .opening)
    (rightLe : (enclose connective.rightLeast right right.tokens).count .opening ≤
      after.count .opening) :
    (enclose connective.precedence (.binary connective left right)
        (tokens (.binary connective left right))).count .opening ≤
      (before ++ connective.token :: after).count .opening := by
  have other : connective.token ≠ .opening := by cases connective <;> decide
  rw [enclose_chain, tokens, List.count_append, List.count_append,
    List.count_cons_of_ne other, List.count_cons_of_ne other]
  exact Nat.add_le_add leftLe rightLe

/-- Tokens which derive a formula at a precedence have at least the parentheses with which the
formula is printed there. The induction is on the derivation: only the rule for parentheses
takes a formula to a place which is stronger than the formula, and it adds one. -/
theorem Derives.count_opening_le {level : Precedence} {nesting : Nat} {tokens : List Token}
    {formula : Formula} (derivation : Derives level nesting tokens formula) :
    (enclose level formula formula.tokens).count .opening ≤ tokens.count .opening := by
  induction derivation with
  | top | bottom => decide
  | atom leaf => exact Nat.le_refl _
  | @not _ _ operand _ inductionHypothesis =>
    have other : Token.not ≠ .opening := by decide
    rw [@enclose_of_le .not (.not operand) (Nat.le_refl _), Formula.tokens,
      List.count_cons_of_ne other, List.count_cons_of_ne other]
    exact inductionHypothesis
  | @enclosed nesting tokens inner _ inductionHypothesis =>
    rw [enclose_of_le (Nat.zero_le _)] at inductionHypothesis
    have added : (Token.opening :: tokens ++ [Token.closing]).count Token.opening =
        tokens.count Token.opening + 1 := by simp
    rw [count_enclose, added]
    split <;> omega
  | tighter connective _ inductionHypothesis =>
    have weaker : connective.precedence.rank ≤ connective.tighter.rank :=
      connective.rank_tighter ▸ Nat.le_succ _
    exact (count_enclose_mono weaker _ _).trans inductionHypothesis
  | chain connective groupsLeft _ _ leftHypothesis rightHypothesis =>
    have weaker : connective.rightLeast.rank ≤ connective.tighter.rank :=
      connective.rank_tighter ▸ Nat.le_succ _
    have leftLeast : connective.leftLeast = connective.precedence := by
      simp [Connective.leftLeast, groupsLeft]
    exact count_binary_le (leftLeast ▸ leftHypothesis)
      ((count_enclose_mono weaker _ _).trans rightHypothesis)
  | arrow connective groupsRight _ _ leftHypothesis rightHypothesis =>
    have leftLeast : connective.leftLeast = connective.tighter := by
      simp [Connective.leftLeast, groupsRight]
    exact count_binary_le (leftLeast ▸ leftHypothesis) rightHypothesis

/-- The text of a formula has the parentheses of its tokens. -/
theorem count_text (formula : Formula) :
    formula.text.toList.count '(' = formula.tokens.count .opening := by
  have derivation := formula.printsBack.alone
  have split := Token.lexemes_join derivation.separated derivation.named
  have count := Token.isMark_opening.count_text split
  rwa [Token.map_token_placed] at count

/-- A text which is read as a formula has at least the parentheses of the printed formula. -/
theorem count_text_le_of_parse {text : String} {formula : Formula}
    (parsed : parse text = .ok formula) :
    formula.text.toList.count '(' ≤ text.toList.count '(' := by
  unfold parse at parsed
  cases split : Token.lexemes text with
  | error cause =>
    rw [split] at parsed
    cases parsed
  | ok lexemes =>
    rw [split] at parsed
    obtain ⟨derivation, sameTokens, rfl⟩ := derivation_of_ofLexemes parsed
    have fewest := (derivation.derived : Derives _ _ _ _).count_opening_le
    rw [enclose_of_le (Nat.zero_le _), sameTokens] at fewest
    rwa [count_text, Token.isMark_opening.count_text split]

/-- A printed formula is read as itself up to the grouping of its chains, or refused as too
deep, and no text which is read as the formula up to this grouping has fewer parentheses. -/
theorem text_fewest_parentheses (formula : Formula) :
    (parse formula.text = .error .tooDeep ∨
      ∃ read, parse formula.text = .ok read ∧ SameChains formula read) ∧
    ∀ text read, parse text = .ok read → SameChains formula read →
      formula.text.toList.count '(' ≤ text.toList.count '(' := by
  constructor
  · have printed := formula.parse_text
    split at printed
    · exact .inr ⟨formula.regrouped, printed, formula.sameChains_regrouped⟩
    · exact .inl printed
  · intro text read parsed same
    rw [same.text_eq]
    exact count_text_le_of_parse parsed

/-- Of the four pairs in this text only the one around an arrow to the left of an arrow is
needed, and the chain may be grouped to the right. -/
theorem text_fewest_parentheses_arrow :
    parse "((⊤->⊥)) -> (⊤ & ⊥) & (⊤)" =
      .ok (.implies (.implies .top .bottom) (.and (.and .top .bottom) .top)) ∧
    SameChains (.implies (.implies .top .bottom) (.and .top (.and .bottom .top)))
      (.implies (.implies .top .bottom) (.and (.and .top .bottom) .top)) ∧
    (text (.implies (.implies .top .bottom) (.and .top (.and .bottom .top)))).toList.count '(' ≤
      "((⊤->⊥)) -> (⊤ & ⊥) & (⊤)".toList.count '(' := by
  have parsed : parse "((⊤->⊥)) -> (⊤ & ⊥) & (⊤)" =
      .ok (.implies (.implies .top .bottom) (.and (.and .top .bottom) .top)) := by cbv
  have same : SameChains (.implies (.implies .top .bottom) (.and .top (.and .bottom .top)))
      (.implies (.implies .top .bottom) (.and (.and .top .bottom) .top)) :=
    .binary .implies (.refl _) (.regroup rfl _ _ _)
  exact ⟨parsed, same, (text_fewest_parentheses _).2 _ _ parsed same⟩

end Formula
end BeliefRevision
