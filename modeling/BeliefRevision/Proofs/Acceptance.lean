import BeliefRevision.Proofs.Derivations

/-!
# What is accepted

Whatever is read off the front of some lexemes has a derivation from the tokens which
were taken. Since a derivation is read back as its value unless it is nested too deeply,
a list of lexemes is accepted exactly where its tokens have a derivation within the
limits, and it is accepted as the value of that derivation, which is the only one.
-/

namespace BeliefRevision

/-- The operands of a connective are never asked for at the atomic precedence. -/
theorem Connective.tighter_ne_atomic (connective : Connective) : connective.tighter ≠ .atomic := by
  cases connective <;> decide

/-- No connective binds at the atomic precedence, which therefore no rule asks for. -/
theorem Connective.precedence_ne_atomic (connective : Connective) :
    connective.precedence ≠ .atomic := by
  cases connective <;> decide

namespace Formula

/-- Where a formula is read from the lexemes at the precedence, the tokens before the rest
have a derivation with the formula as its value. -/
def Accounted (finish : Nat) (level : Precedence) (lexemes : List Lexeme) : Prop :=
  ∀ ⦃enclosed : Bool⦄ ⦃room : Nat⦄ ⦃formula : Formula⦄ ⦃rest : List Lexeme⦄,
    outcome (read finish level enclosed room lexemes) = .ok (formula, rest) →
      ∃ derivation : Derivation (.level level),
        lexemes.map Lexeme.token = derivation.tokens ++ rest.map Lexeme.token ∧
          derivation.value = formula

/-- So it is with whatever is read from fewer lexemes. At the atomic precedence, which no
rule asks for, nothing has a derivation. -/
def AccountedBelow (finish : Nat) (lexemes : List Lexeme) : Prop :=
  ∀ ⦃others : List Lexeme⦄, others.length < lexemes.length →
    ∀ ⦃level : Precedence⦄, level ≠ .atomic → Accounted finish level others

variable {finish : Nat} {lexemes : List Lexeme}

/-- What holds of all shorter lists holds of those which are shorter than one of them. -/
theorem AccountedBelow.mono (fewer : AccountedBelow finish lexemes) {others : List Lexeme}
    (shorter : others.length < lexemes.length) : AccountedBelow finish others := by
  intro fewest isFewer
  exact fewer (Nat.lt_trans isFewer shorter)

/-- A step which succeeds goes on from what succeeded before it. -/
theorem exists_of_bind_ok {first : Outcome} {next : Formula × List Lexeme → Outcome}
    {result : Formula × List Lexeme} (given : first.bind next = .ok result) :
    ∃ formula rest, first = .ok (formula, rest) ∧ next (formula, rest) = .ok result := by
  cases first with
  | error cause => cases given
  | ok before => exact ⟨before.1, before.2, rfl, given⟩

/-- A nested reading which succeeds has room, and goes on from what it has read. -/
theorem exists_of_nested_ok {room : Nat} {nested : Nat → Outcome}
    {next : Formula × List Lexeme → Outcome} {result : Formula × List Lexeme}
    (given : (match room with
      | 0 => .error .tooDeep
      | room + 1 => (nested room).bind next) = Except.ok result) :
    ∃ less formula rest, nested less = .ok (formula, rest) ∧ next (formula, rest) = .ok result := by
  cases room with
  | zero => cases given
  | succ less =>
    obtain ⟨formula, rest, before, after⟩ := exists_of_bind_ok given
    exact ⟨less, formula, rest, before, after⟩

/-- What is read leaves fewer lexemes than there were. -/
theorem length_lt_of_outcome {level : Precedence} {enclosed : Bool} {room : Nat}
    {formula : Formula} {rest : List Lexeme}
    (given : outcome (read finish level enclosed room lexemes) = .ok (formula, rest)) :
    rest.length < lexemes.length := by
  obtain ⟨shorter, _⟩ := eq_ok_of_outcome given
  exact shorter

/-- No formula begins with a connective or with a closing parenthesis. -/
theorem outcome_read_ne_ok {token : Token} {enclosed : Bool} {room position : Nat}
    {rest : List Lexeme} {result : Formula × List Lexeme}
    (other : token = .closing ∨ ∃ connective : Connective, token = connective.token) :
    outcome (read finish .not enclosed room (⟨token, position⟩ :: rest)) ≠ .ok result := by
  intro given
  rcases other with rfl | ⟨connective, isConnective⟩
  · rw [outcome_read_closing] at given
    cases given
  · rw [outcome_read_connective isConnective] at given
    cases given

/-- The text of an atom which is read is a name. -/
theorem exists_atom_of_read {name : String} {enclosed : Bool} {room position : Nat}
    {rest : List Lexeme} {result : Formula × List Lexeme}
    (given : outcome (read finish .not enclosed room (⟨.atom name, position⟩ :: rest)) =
      .ok result) : ∃ leaf : Atom, leaf.name = name := by
  cases named : Atom.ofName? name with
  | some leaf => exact ⟨leaf, Atom.ofName?_eq_some_iff.mp named⟩
  | none =>
    rw [outcome_read_unnamed named] at given
    cases given

/-- What is read as a unary formula has a derivation: a constant, an atom or a parenthesis by its
first token, a negation by that of its operand. -/
theorem accounted_not (fewer : AccountedBelow finish lexemes) :
    Accounted finish .not lexemes := by
  intro enclosed room formula rest given
  cases lexemes with
  | nil =>
    rw [outcome_read_nil] at given
    cases given
  | cons lexeme others =>
    obtain ⟨token, position⟩ := lexeme
    have below := fewer (Nat.lt_succ_self others.length)
    cases token with
    | top =>
      rw [outcome_read_top] at given
      cases given
      exact ⟨.top, rfl, rfl⟩
    | bottom =>
      rw [outcome_read_bottom] at given
      cases given
      exact ⟨.bottom, rfl, rfl⟩
    | atom name =>
      obtain ⟨leaf, rfl⟩ := exists_atom_of_read given
      rw [outcome_read_atom] at given
      cases given
      exact ⟨.atom leaf, rfl, rfl⟩
    | not =>
      rw [outcome_read_not] at given
      obtain ⟨less, operand, after, before, ends⟩ := exists_of_nested_ok given
      cases ends
      obtain ⟨derivation, taken, rfl⟩ := below (by decide) before
      exact ⟨.not derivation, congrArg (Token.not :: ·) taken, rfl⟩
    | opening =>
      rw [outcome_read_opening] at given
      obtain ⟨less, inner, after, before, ends⟩ := exists_of_nested_ok given
      obtain ⟨derivation, taken, rfl⟩ := below (by decide) before
      dsimp only at ends
      split at ends
      · cases ends
        refine ⟨.enclosed derivation, ?_, rfl⟩
        simp [Derivation.tokens, taken]
      · cases ends
    | closing => exact absurd given (outcome_read_ne_ok (.inl rfl))
    | and => exact absurd given (outcome_read_ne_ok (.inr ⟨.and, rfl⟩))
    | or => exact absurd given (outcome_read_ne_ok (.inr ⟨.or, rfl⟩))
    | implies => exact absurd given (outcome_read_ne_ok (.inr ⟨.implies, rfl⟩))
    | iff => exact absurd given (outcome_read_ne_ok (.inr ⟨.iff, rfl⟩))

/-- What is read after the left operand of a connective has a derivation as what follows
it. The induction is on the number of lexemes, of which each further operand of a chain
takes some. -/
theorem derivation_of_continued {connective : Connective} {enclosed : Bool} {room : Nat}
    {left formula : Formula} {rest : List Lexeme} (fewer : AccountedBelow finish lexemes)
    (given : continued finish connective enclosed room left lexemes = .ok (formula, rest)) :
    ∃ more : Derivation (.more connective),
      lexemes.map Lexeme.token = more.tokens ++ rest.map Lexeme.token ∧
        more.value left = formula := by
  induction length : lexemes.length using Nat.strongRecOn generalizing lexemes left with
  | ind count inductionHypothesis =>
    by_cases follows : ∃ lexeme ∈ lexemes.head?, lexeme.token = connective.token
    · obtain ⟨lexeme, isNext, follows⟩ := follows
      obtain ⟨others, rfl⟩ := List.head?_eq_some_iff.mp isNext
      have below := fewer (Nat.lt_succ_self others.length)
      cases groups : connective.groupsRight with
      | true =>
        rw [continued_right groups follows] at given
        obtain ⟨less, right, after, before, ends⟩ := exists_of_nested_ok given
        cases ends
        obtain ⟨derivation, taken, rfl⟩ := below connective.precedence_ne_atomic before
        refine ⟨.arrow connective groups derivation, ?_, rfl⟩
        simp [Derivation.tokens, follows, taken]
      | false =>
        rw [continued_chain groups follows] at given
        obtain ⟨right, after, before, goesOn⟩ := exists_of_bind_ok given
        obtain ⟨derivation, taken, rfl⟩ := below connective.tighter_ne_atomic before
        have shorter : after.length < (lexeme :: others).length :=
          Nat.lt_succ_of_lt (length_lt_of_outcome before)
        obtain ⟨more, takenAfter, rfl⟩ := inductionHypothesis after.length (length ▸ shorter)
          (fewer.mono shorter) goesOn rfl
        refine ⟨.chained connective groups derivation more, ?_, rfl⟩
        simp [Derivation.tokens, follows, taken, takenAfter]
    · rw [continued_of_ne fun lexeme isNext same => follows ⟨lexeme, isNext, same⟩] at given
      cases given
      exact ⟨.finished connective, rfl, rfl⟩

/-- The first operand of a connective and what follows it make up a formula. -/
theorem accounted_precedence {connective : Connective}
    (operand : Accounted finish connective.tighter lexemes)
    (fewer : AccountedBelow finish lexemes) : Accounted finish connective.precedence lexemes := by
  intro enclosed room formula rest given
  rw [outcome_read_precedence] at given
  obtain ⟨left, after, before, goesOn⟩ := exists_of_bind_ok given
  obtain ⟨first, taken, rfl⟩ := operand before
  obtain ⟨more, takenAfter, rfl⟩ :=
    derivation_of_continued (fewer.mono (length_lt_of_outcome before)) goesOn
  refine ⟨.operands connective rfl first more, ?_, rfl⟩
  rw [taken, takenAfter, Derivation.tokens, List.append_assoc]

/-- What holds at a precedence follows from what holds of fewer lexemes and, at the precedence
of a connective, at the next stronger one. Among as many lexemes the precedences are taken from
the tightest on. -/
theorem descent {Holds : Precedence → List Lexeme → Prop}
    (unary : ∀ lexemes, (∀ others, others.length < lexemes.length →
      ∀ level, level ≠ .atomic → Holds level others) → Holds .not lexemes)
    (operands : ∀ (connective : Connective) lexemes, Holds connective.tighter lexemes →
      (∀ others, others.length < lexemes.length →
        ∀ level, level ≠ .atomic → Holds level others) → Holds connective.precedence lexemes)
    (lexemes : List Lexeme) {level : Precedence} (notAtomic : level ≠ .atomic) :
    Holds level lexemes := by
  induction length : lexemes.length using Nat.strongRecOn generalizing lexemes level with
  | ind count inductionHypothesis =>
    have fewer : ∀ others, others.length < lexemes.length →
        ∀ level, level ≠ .atomic → Holds level others := by
      intro others isFewer level notAtomic
      exact inductionHypothesis others.length (length ▸ isFewer) others notAtomic rfl
    have atNot : Holds .not lexemes := unary lexemes fewer
    have atAnd : Holds .and lexemes := operands .and lexemes atNot fewer
    have atOr : Holds .or lexemes := operands .or lexemes atAnd fewer
    have atImplies : Holds .implies lexemes := operands .implies lexemes atOr fewer
    have atIff : Holds .iff lexemes := operands .iff lexemes atImplies fewer
    cases level with
    | iff => exact atIff
    | implies => exact atImplies
    | or => exact atOr
    | and => exact atAnd
    | not => exact atNot
    | atomic => exact absurd rfl notAtomic

/-- Every reading of a formula has a derivation. -/
theorem accounted (finish : Nat) (lexemes : List Lexeme) {level : Precedence}
    (notAtomic : level ≠ .atomic) : Accounted finish level lexemes :=
  descent (fun _ fewer => accounted_not fun _ isFewer _ notAtomic => fewer _ isFewer _ notAtomic)
    (fun _ _ operand fewer => accounted_precedence operand
      fun _ isFewer _ notAtomic => fewer _ isFewer _ notAtomic) lexemes notAtomic

/-- Accepted lexemes have a derivation of the formula as which they are accepted. -/
theorem derivation_of_ofLexemes {formula : Formula}
    (accepted : ofLexemes lexemes finish = .ok formula) :
    ∃ derivation : Derivation (.level .iff),
      derivation.tokens = lexemes.map Lexeme.token ∧ derivation.value = formula := by
  cases lexemes with
  | nil => cases accepted
  | cons first more =>
    unfold ofLexemes at accepted
    dsimp only at accepted
    split at accepted
    · cases accepted
    · rename_i read shorter reading
      split at accepted
      · cases accepted
      · cases accepted
        have given : outcome (Formula.read finish .iff false depthLimit (first :: more)) =
            .ok (formula, []) := by
          rw [reading]
          rfl
        obtain ⟨derivation, taken, same⟩ := accounted finish (first :: more) (by decide) given
        exact ⟨derivation, by simpa using taken.symm, same⟩
    · cases accepted
    · cases accepted

/-- Lexemes whose tokens have a derivation are read as its value, unless the derivation or
the value is too deep. -/
theorem ofLexemes_of_derivation {derivation : Derivation (.level .iff)}
    (same : derivation.tokens = lexemes.map Lexeme.token) (finish : Nat) :
    ofLexemes lexemes finish =
      if derivation.nesting ≤ depthLimit ∧ derivation.value.depth ≤ depthLimit then
        .ok derivation.value
      else .error .tooDeep :=
  ofLexemes_of_derives derivation.derived same.symm finish

/-- Lexemes are accepted as a formula exactly where their tokens have a derivation with
that value, in which no point is nested deeper than the limit, and the formula itself is
within it. The derivation is the only one of the tokens, and so the formula is, too. -/
theorem ofLexemes_eq_ok_iff (lexemes : List Lexeme) (finish : Nat) (formula : Formula) :
    (ofLexemes lexemes finish = .ok formula ↔
      ∃ derivation : Derivation (.level .iff),
        derivation.tokens = lexemes.map Lexeme.token ∧ derivation.value = formula ∧
          derivation.nesting ≤ depthLimit ∧ formula.depth ≤ depthLimit) ∧
      Function.Injective (@Derivation.tokens (.level .iff)) := by
  refine ⟨⟨?_, ?_⟩, Derivation.tokens_injective (.level .iff)⟩
  · intro accepted
    obtain ⟨derivation, sameTokens, rfl⟩ := derivation_of_ofLexemes accepted
    refine ⟨derivation, sameTokens, rfl, ?_⟩
    rw [ofLexemes_of_derivation sameTokens finish] at accepted
    by_contra tooDeep
    rw [if_neg tooDeep] at accepted
    cases accepted
  · rintro ⟨derivation, sameTokens, rfl, limits⟩
    rw [ofLexemes_of_derivation sameTokens finish, if_pos limits]

end Formula
end BeliefRevision
