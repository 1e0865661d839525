import BeliefRevision.Proofs.Acceptance

/-!
# Why a reading fails

A reading which fails blames a lexeme for it, or the end of the lexemes where an operand is
missing. Whether a closing parenthesis is unmatched, or only stands where an operand should,
depends on the parentheses before it alone. A reading which succeeds takes as many closing as
opening parentheses, and so these do not matter for the blame of what is read after it. An
opening parenthesis does, as what follows it is read as the inside of parentheses. It is blamed
itself where the formula inside ends and no closing one follows: there the lexemes end, or
another formula begins.
-/

namespace BeliefRevision

/-- A connective is not written as a parenthesis, and so opens and closes nothing. -/
theorem Connective.token_ne_parenthesis (connective : Connective) :
    connective.token ≠ .opening ∧ connective.token ≠ .closing := by
  cases connective <;> decide

namespace Formula

/-- How many parentheses the lexemes open. -/
def openings (lexemes : List Lexeme) : Nat := (lexemes.map Lexeme.token).count .opening

/-- How many parentheses the lexemes close. -/
def closings (lexemes : List Lexeme) : Nat := (lexemes.map Lexeme.token).count .closing

/-- What is written one after another opens as many parentheses as both parts do. -/
theorem openings_append (first second : List Lexeme) :
    openings (first ++ second) = openings first + openings second := by
  rw [openings, List.map_append, List.count_append, openings, openings]

/-- It closes as many as both parts do. -/
theorem closings_append (first second : List Lexeme) :
    closings (first ++ second) = closings first + closings second := by
  rw [closings, List.map_append, List.count_append, closings, closings]

/-- The lexemes close as many parentheses as they open. -/
def Balanced (lexemes : List Lexeme) : Prop := closings lexemes = openings lexemes

/-- Balanced parts make up a balanced whole. -/
theorem Balanced.append {first second : List Lexeme} (balanced : Balanced first)
    (alsoBalanced : Balanced second) : Balanced (first ++ second) := by
  unfold Balanced at *
  rw [openings_append, closings_append, balanced, alsoBalanced]

/-- A lexeme which is no parenthesis is balanced by itself. -/
theorem balanced_singleton {lexeme : Lexeme}
    (neither : lexeme.token ≠ .opening ∧ lexeme.token ≠ .closing) : Balanced [lexeme] := by
  simp [Balanced, openings, closings, neither]

/-- A pair of parentheses around what is balanced is balanced. -/
theorem Balanced.enclosed {inside : List Lexeme} (balanced : Balanced inside)
    (opened closed : Nat) : Balanced (⟨.opening, opened⟩ :: inside ++ [⟨.closing, closed⟩]) := by
  unfold Balanced openings closings at *
  simp [balanced]

/-- After the opening parenthesis at the position a formula ends, and then the lexemes end or
another formula begins. -/
def LacksClose (position : Nat) (lexemes : List Lexeme) : Prop :=
  ∃ before inside after, lexemes = before ++ ⟨.opening, position⟩ :: (inside ++ after) ∧
    (∃ derivation : Derivation (.level .iff), derivation.tokens = inside.map Lexeme.token) ∧
    ∀ lexeme ∈ after.head?, lexeme.token.beginsFormula = true

/-- A parenthesis lacks its closing one whatever is put in front. -/
theorem LacksClose.prepend {position : Nat} {lexemes : List Lexeme}
    (lacks : LacksClose position lexemes) (taken : List Lexeme) :
    LacksClose position (taken ++ lexemes) := by
  obtain ⟨before, inside, after, rfl, complete⟩ := lacks
  exact ⟨taken ++ before, inside, after, by rw [List.append_assoc], complete⟩

/-- What a reading blames which fails with the error. Where it is enclosed, one more parenthesis
is open than its lexemes tell. -/
def Blames (finish : Nat) (enclosed : Bool) (lexemes : List Lexeme) : ParseError → Prop
  | .unmatchedClose position => enclosed = false ∧
      ∃ before after, lexemes = before ++ ⟨.closing, position⟩ :: after ∧ Balanced before
  | .missingClose position => LacksClose position lexemes
  | .expectedOperand position => position = finish ∨
      (∃ connective : Connective, ⟨connective.token, position⟩ ∈ lexemes) ∨
      ∃ before after, lexemes = before ++ ⟨.closing, position⟩ :: after ∧
        closings before < openings before + enclosed.toNat
  | .invalidAtom _ => True
  | .tooDeep => True
  | .empty => False
  | .unknownSymbol _ _ => False
  | .trailingInput _ => False

/-- A reading either takes a balanced number of lexemes off the front and stops where the part
ends, or fails for what it blames. -/
def Explained (finish : Nat) (enclosed : Bool) (part : Part) (lexemes : List Lexeme) :
    Outcome → Prop
  | .ok (_, rest) => part.Ends (rest.map Lexeme.token) ∧
      ∃ taken, lexemes = taken ++ rest ∧ Balanced taken
  | .error cause => Blames finish enclosed lexemes cause

variable {finish : Nat} {enclosed : Bool} {part last : Part} {lexemes rest taken : List Lexeme}
  {cause : ParseError} {given : Outcome}

/-- The blame stays right when what is balanced is put in front. -/
theorem Blames.prepend (blames : Blames finish enclosed rest cause) (balanced : Balanced taken) :
    Blames finish enclosed (taken ++ rest) cause := by
  cases cause with
  | unmatchedClose position =>
    obtain ⟨outside, before, after, rfl, alsoBalanced⟩ := blames
    refine ⟨outside, taken ++ before, after, ?_, balanced.append alsoBalanced⟩
    rw [List.append_assoc]
  | missingClose position => exact LacksClose.prepend blames taken
  | expectedOperand position =>
    rcases blames with atFinish | ⟨connective, member⟩ | ⟨before, after, rfl, isOpen⟩
    · exact .inl atFinish
    · exact .inr (.inl ⟨connective, List.mem_append_right taken member⟩)
    · refine .inr (.inr ⟨taken ++ before, after, by rw [List.append_assoc], ?_⟩)
      rw [openings_append, closings_append, balanced]
      omega
  | _ => exact blames

/-- So it does when the parenthesis is put in front of what it encloses. -/
theorem Blames.opening (blames : Blames finish true rest cause) (position : Nat) :
    Blames finish enclosed (⟨.opening, position⟩ :: rest) cause := by
  cases cause with
  | unmatchedClose place => cases blames.1
  | missingClose place => exact LacksClose.prepend blames [⟨.opening, position⟩]
  | expectedOperand place =>
    rcases blames with atFinish | ⟨connective, member⟩ | ⟨before, after, rfl, isOpen⟩
    · exact .inl atFinish
    · exact .inr (.inl ⟨connective, List.mem_cons_of_mem _ member⟩)
    · refine .inr (.inr ⟨⟨.opening, position⟩ :: before, after, rfl, ?_⟩)
      have opened : openings (⟨.opening, position⟩ :: before) = openings before + 1 := by
        simp [openings]
      have closed : closings (⟨.opening, position⟩ :: before) = closings before := by
        simp [closings]
      rw [Bool.toNat_true] at isOpen
      omega
  | _ => exact blames

namespace Explained

/-- Nothing need be taken where the part ends. -/
theorem nothing (ends : part.Ends (rest.map Lexeme.token)) (formula : Formula) :
    Explained finish enclosed part rest (.ok (formula, rest)) :=
  ⟨ends, [], rfl, rfl⟩

/-- What is balanced may be put in front, whether the reading succeeds or fails. -/
theorem prepend (explained : Explained finish enclosed part rest given)
    (balanced : Balanced taken) : Explained finish enclosed part (taken ++ rest) given := by
  cases given with
  | error cause => exact Blames.prepend explained balanced
  | ok result =>
    obtain ⟨ends, others, same, alsoBalanced⟩ := explained
    refine ⟨ends, taken ++ others, ?_, balanced.append alsoBalanced⟩
    rw [same, List.append_assoc]

/-- A step which goes on with the rest explains the whole. -/
theorem bind {next : Formula × List Lexeme → Outcome}
    (first : Explained finish enclosed part lexemes given)
    (second : ∀ formula rest, given = .ok (formula, rest) → part.Ends (rest.map Lexeme.token) →
      Explained finish enclosed last rest (next (formula, rest))) :
    Explained finish enclosed last lexemes (given.bind next) := by
  cases given with
  | error cause => exact first
  | ok result =>
    obtain ⟨ends, taken, same, balanced⟩ := first
    rw [same]
    exact (second result.1 result.2 rfl ends).prepend balanced

/-- A nested reading which has no room is too deep. -/
theorem nested {room : Nat} {reading : Nat → Outcome}
    {next : Formula × List Lexeme → Outcome}
    (explained : ∀ less, Explained finish enclosed part lexemes ((reading less).bind next)) :
    Explained finish enclosed part lexemes
      (match room with
      | 0 => .error .tooDeep
      | room + 1 => (reading room).bind next) := by
  cases room with
  | zero => exact trivial
  | succ less => exact explained less

end Explained

/-- All readings of the lexemes at the precedence are explained. -/
def AllExplained (finish : Nat) (level : Precedence) (lexemes : List Lexeme) : Prop :=
  ∀ (enclosed : Bool) (room : Nat),
    Explained finish enclosed (.level level) lexemes
      (outcome (read finish level enclosed room lexemes))

/-- So it is with all precedences which a rule asks for, and fewer lexemes than the bound. -/
def ExplainedBelow (finish bound : Nat) : Prop :=
  ∀ others, others.length < bound → ∀ level, level ≠ .atomic → AllExplained finish level others

/-- Any token ends what binds as strongly as a negation. -/
theorem ends_not (rest : List Token) : (Part.level .not).Ends rest := by
  intro token _ connective _
  cases connective <;> decide

/-- A reading of a formula takes what derives one, and leaves what does not go on with it. -/
theorem Explained.formula {room : Nat} {formula : Formula}
    (explained : Explained finish enclosed (.level .iff) lexemes
      (outcome (read finish .iff enclosed room lexemes)))
    (given : outcome (read finish .iff enclosed room lexemes) = .ok (formula, rest)) :
    ∃ taken, lexemes = taken ++ rest ∧ Balanced taken ∧
      (∃ derivation : Derivation (.level .iff), derivation.tokens = taken.map Lexeme.token) ∧
      ∀ lexeme ∈ rest.head?, ∀ connective : Connective, lexeme.token ≠ connective.token := by
  rw [given] at explained
  obtain ⟨ends, taken, rfl, balanced⟩ := explained
  obtain ⟨derivation, complete, _⟩ := @accounted finish _ .iff (by decide) _ _ _ _ given
  refine ⟨taken, rfl, balanced, ⟨derivation, ?_⟩, ?_⟩
  · rw [List.map_append] at complete
    exact (List.append_cancel_right complete).symm
  · intro lexeme isNext connective isConnective
    have next : lexeme.token ∈ (rest.map Lexeme.token).head? := by
      rw [List.head?_map]
      exact Option.mem_map_of_mem Lexeme.token isNext
    exact Nat.not_lt_zero _ (ends _ next connective isConnective)

/-- What stands in parentheses is explained with the parenthesis which opens it. Where none closes
it, the opening one is to blame: what follows the formula inside does not go on with it, and so
another one begins there. -/
theorem Explained.opening {room : Nat}
    (inside : Explained finish true (.level .iff) rest (outcome (read finish .iff true room rest)))
    (position : Nat) :
    Explained finish enclosed (.level .not) (⟨.opening, position⟩ :: rest)
      ((outcome (read finish .iff true room rest)).bind fun (inner, after) =>
        match after with
        | ⟨.closing, _⟩ :: after => .ok (inner, after)
        | _ => .error (.missingClose position)) := by
  cases given : outcome (read finish .iff true room rest) with
  | error cause =>
    rw [given] at inside
    exact Blames.opening inside position
  | ok result =>
    obtain ⟨formula, left⟩ := result
    obtain ⟨taken, rfl, balanced, complete, noConnective⟩ := inside.formula given
    have missing (notClosing : ∀ lexeme ∈ left.head?, lexeme.token ≠ .closing) :
        Explained finish enclosed (.level .not) (⟨.opening, position⟩ :: (taken ++ left))
          (.error (.missingClose position)) := by
      refine ⟨[], taken, left, rfl, complete, ?_⟩
      intro lexeme isNext
      exact Token.beginsFormula_of_ne (notClosing lexeme isNext) (noConnective lexeme isNext)
    cases left with
    | nil => exact missing nofun
    | cons next after =>
      obtain ⟨token, place⟩ := next
      by_cases isClosing : token = .closing
      · subst isClosing
        refine ⟨ends_not _, _, ?_, balanced.enclosed position place⟩
        simp
      · have notClosing : ∀ lexeme ∈ (⟨token, place⟩ :: after : List Lexeme).head?,
            lexeme.token ≠ .closing := by
          rintro _ ⟨⟩
          exact isClosing
        cases token <;> first | exact missing notClosing | exact absurd rfl isClosing

/-- A unary formula is explained by its first token, and by what is nested in it. -/
theorem explained_not (fewer : ExplainedBelow finish lexemes.length) :
    AllExplained finish .not lexemes := by
  intro enclosed room
  cases lexemes with
  | nil =>
    rw [outcome_read_nil]
    exact .inl rfl
  | cons lexeme others =>
    obtain ⟨token, position⟩ := lexeme
    have isFewer : others.length < (⟨token, position⟩ :: others : List Lexeme).length :=
      Nat.lt_succ_self _
    have single (neither : token ≠ .opening ∧ token ≠ .closing) :
        Balanced [⟨token, position⟩] := balanced_singleton neither
    have misplaced (connective : Connective) (isConnective : token = connective.token) :
        Explained finish enclosed (.level .not) (⟨token, position⟩ :: others)
          (outcome (read finish .not enclosed room (⟨token, position⟩ :: others))) := by
      rw [outcome_read_connective isConnective]
      exact .inr (.inl ⟨connective, isConnective ▸ List.mem_cons_self⟩)
    cases token with
    | top =>
      rw [outcome_read_top]
      exact (Explained.nothing (ends_not _) _).prepend (single (by simp))
    | bottom =>
      rw [outcome_read_bottom]
      exact (Explained.nothing (ends_not _) _).prepend (single (by simp))
    | atom name =>
      cases named : Atom.ofName? name with
      | some leaf =>
        obtain rfl := Atom.ofName?_eq_some_iff.mp named
        rw [outcome_read_atom]
        exact (Explained.nothing (ends_not _) _).prepend (single (by simp))
      | none =>
        rw [outcome_read_unnamed named]
        trivial
    | not =>
      rw [outcome_read_not]
      refine .nested fun less => ?_
      have operand := fewer others isFewer .not (by decide) enclosed less
      refine (operand.bind ?_).prepend (single (by simp))
      intro formula rest _ _
      exact .nothing (ends_not _) _
    | opening =>
      rw [outcome_read_opening]
      refine .nested fun less => ?_
      exact (fewer others isFewer .iff (by decide) true less).opening position
    | closing =>
      rw [outcome_read_closing]
      cases enclosed with
      | true => exact .inr (.inr ⟨[], others, rfl, by decide⟩)
      | false => exact ⟨rfl, [], others, rfl, rfl⟩
    | and => exact misplaced .and rfl
    | or => exact misplaced .or rfl
    | implies => exact misplaced .implies rfl
    | iff => exact misplaced .iff rfl

/-- Where a tighter part ends and the connective does not follow, its own part ends. -/
theorem ends_of_stops {connective : Connective}
    (ends : (Part.level connective.tighter).Ends (rest.map Lexeme.token))
    (stops : ∀ lexeme ∈ rest.head?, lexeme.token ≠ connective.token) :
    (Part.level connective.precedence).Ends (rest.map Lexeme.token) := by
  intro token isNext other isOther
  have notTighter : other.precedence.rank < connective.precedence.rank + 1 :=
    connective.rank_tighter ▸ ends token isNext other isOther
  have different : other.precedence.rank ≠ connective.precedence.rank := by
    intro same
    cases Connective.eq_of_precedence_eq (Precedence.eq_of_rank_eq same)
    rw [List.head?_map] at isNext
    obtain ⟨lexeme, isFirst, rfl⟩ := Option.map_eq_some_iff.mp isNext
    exact stops lexeme isFirst isOther
  show other.precedence.rank < connective.precedence.rank
  omega

/-- What is read after the left operand of a connective is explained, where nothing comes first
that binds more strongly. The induction is on the number of lexemes, of which each further
operand of a chain takes some. -/
theorem explained_continued {bound : Nat} {connective : Connective} (within : rest.length ≤ bound)
    (fewer : ExplainedBelow finish bound)
    (ends : (Part.level connective.tighter).Ends (rest.map Lexeme.token)) (room : Nat)
    (left : Formula) :
    Explained finish enclosed (.level connective.precedence) rest
      (continued finish connective enclosed room left rest) := by
  induction length : rest.length using Nat.strongRecOn generalizing rest left with
  | ind count inductionHypothesis =>
    by_cases follows : ∃ lexeme ∈ rest.head?, lexeme.token = connective.token
    · obtain ⟨lexeme, isNext, follows⟩ := follows
      obtain ⟨others, rfl⟩ := List.head?_eq_some_iff.mp isNext
      have single : Balanced [lexeme] :=
        balanced_singleton (follows ▸ connective.token_ne_parenthesis)
      cases groups : connective.groupsRight with
      | true =>
        rw [continued_right groups follows]
        refine .nested fun less => ?_
        have right := fewer others within _ connective.precedence_ne_atomic enclosed less
        refine (right.bind ?_).prepend single
        intro formula after _ ends
        exact .nothing ends _
      | false =>
        rw [continued_chain groups follows]
        have operand := fewer others within _ connective.tighter_ne_atomic enclosed room
        refine (operand.bind ?_).prepend single
        intro formula after before ends
        have shorter : after.length < (lexeme :: others).length :=
          Nat.lt_succ_of_lt (length_lt_of_outcome before)
        exact inductionHypothesis after.length (length ▸ shorter) (shorter.le.trans within) ends
          _ rfl
    · have stops : ∀ lexeme ∈ rest.head?, lexeme.token ≠ connective.token :=
        fun lexeme isNext same => follows ⟨lexeme, isNext, same⟩
      rw [continued_of_ne stops]
      exact .nothing (ends_of_stops ends stops) left

/-- A chain is explained by its first operand and what is read after that. -/
theorem explained_precedence {connective : Connective}
    (operand : AllExplained finish connective.tighter lexemes)
    (fewer : ExplainedBelow finish lexemes.length) :
    AllExplained finish connective.precedence lexemes := by
  intro enclosed room
  rw [outcome_read_precedence]
  refine (operand enclosed room).bind ?_
  intro left rest before ends
  exact explained_continued (length_lt_of_outcome before).le fewer ends room left

/-- Every reading is explained. -/
theorem explained (finish : Nat) (lexemes : List Lexeme) {level : Precedence}
    (notAtomic : level ≠ .atomic) : AllExplained finish level lexemes :=
  descent (fun _ fewer => explained_not fewer)
    (fun _ _ operand fewer => explained_precedence operand fewer) lexemes notAtomic

/-- At the position stands what neither goes on with the formula before it nor closes a
parenthesis. -/
def Trails (position : Nat) (lexemes : List Lexeme) : Prop :=
  ∃ before token after, lexemes = before ++ ⟨token, position⟩ :: after ∧ token ≠ .closing ∧
    (∀ connective : Connective, token ≠ connective.token) ∧
    ∃ derivation : Derivation (.level .iff), derivation.tokens = before.map Lexeme.token

/-- What is left after a formula trails it, unless a closing parenthesis comes first. -/
theorem trails_of_outcome {enclosed : Bool} {room position : Nat} {formula : Formula}
    {token : Token} {after : List Lexeme}
    (given : outcome (read finish .iff enclosed room lexemes) =
      .ok (formula, ⟨token, position⟩ :: after)) (notClosing : token ≠ .closing) :
    Trails position lexemes := by
  have whole := @explained finish lexemes .iff (by decide) enclosed room
  obtain ⟨before, rfl, _, complete, noConnective⟩ := whole.formula given
  exact ⟨before, token, after, rfl, notClosing, noConnective _ rfl, complete⟩

/-- Lexemes are refused for what the reading of a formula blames, for a closing parenthesis
after the formula, which nothing opened, or for something else which follows it. -/
theorem refused_ofLexemes (nonempty : lexemes ≠ [])
    (refused : ofLexemes lexemes finish = .error cause) :
    Blames finish false lexemes cause ∨
      ∃ position, cause = .trailingInput position ∧ Trails position lexemes := by
  cases lexemes with
  | nil => exact absurd rfl nonempty
  | cons first more =>
    have whole := @explained finish (first :: more) .iff (by decide) false depthLimit
    unfold ofLexemes at refused
    dsimp only at refused
    cases reading : read finish .iff false depthLimit (first :: more) with
    | error other =>
      rw [reading] at whole refused
      cases refused
      exact .inl whole
    | ok result =>
      obtain ⟨formula, rest, shorter⟩ := result
      have given : outcome (read finish .iff false depthLimit (first :: more)) =
          .ok (formula, rest) := by
        rw [reading]
        rfl
      rw [reading] at refused
      rw [given] at whole
      obtain ⟨_, taken, same, balanced⟩ := whole
      cases rest with
      | nil =>
        dsimp only at refused
        split at refused
        · cases refused
          exact .inl trivial
        · cases refused
      | cons lexeme after =>
        obtain ⟨token, position⟩ := lexeme
        by_cases isClosing : token = .closing
        · subst isClosing
          cases refused
          exact .inl ⟨rfl, taken, after, same, balanced⟩
        · have trailing : cause = .trailingInput position := by
            cases token <;> cases refused <;> first | rfl | exact absurd rfl isClosing
          exact .inr ⟨position, trailing, trails_of_outcome given isClosing⟩

end Formula
end BeliefRevision
