import BeliefRevision.Proofs.Lexing
import BeliefRevision.Proofs.Reading

/-!
# The grammar of formulas

Tokens derive a formula at a precedence. Chains gather to the left and arrows to the
right, and negations, parentheses and the right operands of arrows are nested. The
nesting of a derivation is the greatest number of these around one of its points.

A list which derives a formula is read as that formula, as far as nothing after it
continues the derivation. It takes exactly the room of its nesting: with less room the
reading fails for being too deep and for no other reason.
-/

namespace BeliefRevision.Formula

/-- The tokens derive the formula at the precedence, with the nesting. -/
inductive Derives : Precedence → Nat → List Token → Formula → Prop where
  | top : Derives .not 0 [.top] .top
  | bottom : Derives .not 0 [.bottom] .bottom
  | atom (leaf : Atom) : Derives .not 0 [.atom leaf.name] (.atom leaf)
  | not {nesting : Nat} {tokens : List Token} {operand : Formula} :
    Derives .not nesting tokens operand → Derives .not (nesting + 1) (.not :: tokens) (.not operand)
  | enclosed {nesting : Nat} {tokens : List Token} {inner : Formula} :
    Derives .iff nesting tokens inner →
      Derives .not (nesting + 1) (.opening :: tokens ++ [.closing]) inner
  | tighter (connective : Connective) {nesting : Nat} {tokens : List Token} {formula : Formula} :
    Derives connective.tighter nesting tokens formula →
      Derives connective.precedence nesting tokens formula
  | chain (connective : Connective) {nesting more : Nat} {tokens others : List Token}
      {left right : Formula} (groupsLeft : connective.groupsRight = false) :
    Derives connective.precedence nesting tokens left →
      Derives connective.tighter more others right →
      Derives connective.precedence (max nesting more) (tokens ++ connective.token :: others)
        (.binary connective left right)
  | arrow (connective : Connective) {nesting more : Nat} {tokens others : List Token}
      {left right : Formula} (groupsRight : connective.groupsRight = true) :
    Derives connective.tighter nesting tokens left →
      Derives connective.precedence more others right →
      Derives connective.precedence (max nesting (more + 1)) (tokens ++ connective.token :: others)
        (.binary connective left right)

/-- A derivation takes at least one token. -/
theorem Derives.ne_nil {level : Precedence} {nesting : Nat} {tokens : List Token}
    {formula : Formula} (derivation : Derives level nesting tokens formula) : tokens ≠ [] := by
  induction derivation with
  | top | bottom | atom _ | not _ _ | enclosed _ _ => simp
  | tighter _ _ inductionHypothesis => exact inductionHypothesis
  | chain _ _ _ _ _ _ | arrow _ _ _ _ _ _ => simp

/-- The atoms of a derivation have names. -/
theorem Derives.named {level : Precedence} {nesting : Nat} {tokens : List Token}
    {formula : Formula} (derivation : Derives level nesting tokens formula) :
    ∀ token ∈ tokens, token.isNamed = true := by
  induction derivation with
  | top | bottom => simp [Token.isNamed]
  | atom leaf => simp [Token.isNamed, leaf.named]
  | not _ inductionHypothesis =>
    intro token member
    rcases List.mem_cons.mp member with rfl | member
    · rfl
    · exact inductionHypothesis token member
  | enclosed _ inductionHypothesis =>
    intro token member
    simp only [List.cons_append, List.mem_cons, List.mem_append, List.not_mem_nil, or_false]
      at member
    rcases member with rfl | member | rfl
    · rfl
    · exact inductionHypothesis token member
    · rfl
  | tighter _ _ inductionHypothesis => exact inductionHypothesis
  | chain connective _ _ _ leftHypothesis rightHypothesis
  | arrow connective _ _ _ leftHypothesis rightHypothesis =>
    intro token member
    rcases List.mem_append.mp member with member | member
    · exact leftHypothesis token member
    · rcases List.mem_cons.mp member with rfl | member
      · cases connective <;> rfl
      · exact rightHypothesis token member

/-- In a derivation something stands between any two atoms. -/
theorem Derives.separated {level : Precedence} {nesting : Nat} {tokens : List Token}
    {formula : Formula} (derivation : Derives level nesting tokens formula) :
    Token.Separated tokens := by
  induction derivation with
  | top | bottom | atom _ => exact List.isChain_singleton _
  | not _ inductionHypothesis =>
    refine List.isChain_cons.mpr ⟨?_, inductionHypothesis⟩
    intro token _ isAtom
    cases isAtom
  | enclosed _ inductionHypothesis =>
    refine List.isChain_cons.mpr ⟨?_, inductionHypothesis.append (List.isChain_singleton _) ?_⟩
    · intro token _ isAtom
      cases isAtom
    · intro token _ last isLast _
      cases Option.mem_some.mp isLast
      rfl
  | tighter _ _ inductionHypothesis => exact inductionHypothesis
  | chain connective _ _ _ leftHypothesis rightHypothesis
  | arrow connective _ _ _ leftHypothesis rightHypothesis =>
    have notAtom : connective.token.isAtom = false := by cases connective <;> rfl
    refine leftHypothesis.append (List.isChain_cons.mpr ⟨?_, rightHypothesis⟩) ?_
    · intro token _ isAtom
      rw [notAtom] at isAtom
      cases isAtom
    · intro token _ next isNext _
      cases Option.mem_some.mp isNext
      exact notAtom

/-- Nothing comes next which binds as strongly as the precedence. -/
def Stops (level : Precedence) (rest : List Lexeme) : Prop :=
  ∀ lexeme ∈ rest.head?, ∀ connective : Connective, lexeme.token = connective.token →
    connective.precedence.rank < level.rank

/-- What stops a precedence stops the stronger ones. -/
theorem Stops.mono {level stronger : Precedence} {rest : List Lexeme} (stops : Stops level rest)
    (le : level.rank ≤ stronger.rank) : Stops stronger rest := by
  intro lexeme isNext connective isConnective
  exact Nat.lt_of_lt_of_le (stops lexeme isNext connective isConnective) le

/-- A connective stops its own operands, as these bind more strongly than it does. -/
theorem stops_tighter {connective : Connective} {lexeme : Lexeme} (rest : List Lexeme)
    (follows : lexeme.token = connective.token) : Stops connective.tighter (lexeme :: rest) := by
  intro next isNext other isOther
  cases Option.mem_some.mp isNext
  rw [follows] at isOther
  cases Connective.eq_of_token_eq isOther
  rw [Connective.rank_tighter]
  exact Nat.lt_succ_self _

/-- What stops a chain is not its connective. -/
theorem Stops.token_ne {connective : Connective} {rest : List Lexeme}
    (stops : Stops connective.precedence rest) :
    ∀ lexeme ∈ rest.head?, lexeme.token ≠ connective.token := by
  intro lexeme isNext isConnective
  exact Nat.lt_irrefl _ (stops lexeme isNext connective isConnective)

/-- The result, if there is room for the nesting. -/
def limited (room nesting : Nat) (result : Outcome) : Outcome :=
  if nesting ≤ room then result else .error .tooDeep

/-- What has no nesting needs no room. -/
theorem limited_zero (room : Nat) (result : Outcome) : limited room 0 result = result :=
  if_pos (Nat.zero_le room)

/-- The room may be asked for before a further step or after it. -/
theorem limited_bind (room nesting : Nat) (formula : Formula) (rest : List Lexeme)
    (next : Formula × List Lexeme → Outcome) :
    (limited room nesting (.ok (formula, rest))).bind next =
      limited room nesting (next (formula, rest)) := by
  unfold limited
  split <;> rfl

/-- Of two limits on the same room the greater one counts. -/
theorem limited_limited (room nesting more : Nat) (result : Outcome) :
    limited room nesting (limited room more result) = limited room (max nesting more) result := by
  unfold limited
  by_cases first : nesting ≤ room
  · by_cases second : more ≤ room
    · rw [if_pos first, if_pos second, if_pos (Nat.max_le.mpr ⟨first, second⟩)]
    · rw [if_pos first, if_neg second, if_neg (fun both => second (Nat.max_le.mp both).2)]
  · rw [if_neg first, if_neg (fun both => first (Nat.max_le.mp both).1)]

/-- One nesting more fits exactly where there is one more room. -/
theorem limited_succ_succ (room nesting : Nat) (result : Outcome) :
    limited (room + 1) (nesting + 1) result = limited room nesting result := by
  unfold limited
  simp only [Nat.add_le_add_iff_right]

/-- How lexemes with the tokens of a derivation are read, where nothing continues the
derivation and, in a chain, where further operands may follow. -/
structure ReadBack (finish : Nat) (level : Precedence) (nesting : Nat) (tokens : List Token)
    (formula : Formula) : Prop where
  alone : ∀ (enclosed : Bool) (room : Nat) (lexemes rest : List Lexeme),
    lexemes.map Lexeme.token = tokens → Stops level rest →
      outcome (read finish level enclosed room (lexemes ++ rest)) =
        limited room nesting (.ok (formula, rest))
  inChain : ∀ (connective : Connective) (enclosed : Bool) (room : Nat) (lexemes rest : List Lexeme),
    connective.precedence = level → connective.groupsRight = false →
      lexemes.map Lexeme.token = tokens → Stops connective.tighter rest →
        outcome (read finish level enclosed room (lexemes ++ rest)) =
          limited room nesting (continued finish connective enclosed room formula rest)

/-- No chain gathers at the precedence of negation. -/
theorem ReadBack.ofAlone {finish nesting : Nat} {tokens : List Token} {formula : Formula}
    (alone : ∀ (enclosed : Bool) (room : Nat) (lexemes rest : List Lexeme),
      lexemes.map Lexeme.token = tokens → Stops .not rest →
        outcome (read finish .not enclosed room (lexemes ++ rest)) =
          limited room nesting (.ok (formula, rest))) :
    ReadBack finish .not nesting tokens formula where
  alone := alone
  inChain := by
    intro connective enclosed room lexemes rest atLevel
    cases connective <;> cases atLevel

/-- In a chain it is enough to know what is read where operands may follow. -/
theorem ReadBack.ofChain {finish nesting : Nat} {connective : Connective} {tokens : List Token}
    {formula : Formula}
    (gathered : ∀ (enclosed : Bool) (room : Nat) (lexemes rest : List Lexeme),
      lexemes.map Lexeme.token = tokens → Stops connective.tighter rest →
        outcome (read finish connective.precedence enclosed room (lexemes ++ rest)) =
          limited room nesting (continued finish connective enclosed room formula rest)) :
    ReadBack finish connective.precedence nesting tokens formula where
  alone := by
    intro enclosed room lexemes rest same stops
    have stopsTighter : Stops connective.tighter rest := by
      apply stops.mono
      rw [Connective.rank_tighter]
      exact Nat.le_succ _
    rw [gathered enclosed room lexemes rest same stopsTighter, continued_of_ne stops.token_ne]
  inChain := by
    intro other enclosed room lexemes rest atLevel _ same stops
    cases Connective.eq_of_precedence_eq atLevel
    exact gathered enclosed room lexemes rest same stops

/-- A single token which is a formula by itself takes no room. -/
theorem ReadBack.ofLeaf {finish : Nat} {token : Token} {formula : Formula}
    (leads : ∀ (enclosed : Bool) (room position : Nat) (rest : List Lexeme),
      outcome (read finish .not enclosed room (⟨token, position⟩ :: rest)) = .ok (formula, rest)) :
    ReadBack finish .not 0 [token] formula := by
  apply ReadBack.ofAlone
  intro enclosed room lexemes rest same _
  obtain ⟨⟨_, position⟩, others, rfl, rfl, isNone⟩ := List.map_eq_cons_iff.mp same
  cases List.map_eq_nil_iff.mp isNone
  rw [limited_zero]
  exact leads enclosed room position rest

/-- The sign of a negation takes one room, and its operand is read in what is left of it. -/
theorem ReadBack.not {finish nesting : Nat} {tokens : List Token} {operand : Formula}
    (readBack : ReadBack finish .not nesting tokens operand) :
    ReadBack finish .not (nesting + 1) (.not :: tokens) (.not operand) := by
  apply ReadBack.ofAlone
  intro enclosed room lexemes rest same stops
  obtain ⟨⟨_, position⟩, others, rfl, rfl, othersSame⟩ := List.map_eq_cons_iff.mp same
  rw [List.cons_append, outcome_read_not]
  cases room with
  | zero => rfl
  | succ room =>
    dsimp only
    rw [readBack.alone enclosed room others rest othersSame stops, limited_bind, limited_succ_succ]

/-- Parentheses take one room. Inside them the closing one stops every precedence, and so any
formula is read back there. -/
theorem ReadBack.enclosed {finish nesting : Nat} {tokens : List Token} {inner : Formula}
    (readBack : ReadBack finish .iff nesting tokens inner) :
    ReadBack finish .not (nesting + 1) (.opening :: tokens ++ [.closing]) inner := by
  apply ReadBack.ofAlone
  intro enclosed room lexemes rest same _
  obtain ⟨⟨_, position⟩, others, rfl, rfl, othersSame⟩ := List.map_eq_cons_iff.mp same
  obtain ⟨inside, last, rfl, insideSame, isLast⟩ := List.map_eq_append_iff.mp othersSame
  obtain ⟨⟨_, place⟩, none, rfl, rfl, isNone⟩ := List.map_eq_cons_iff.mp isLast
  cases List.map_eq_nil_iff.mp isNone
  rw [List.cons_append, List.append_assoc, outcome_read_opening]
  cases room with
  | zero => rfl
  | succ room =>
    have stops : Stops .iff (⟨.closing, place⟩ :: rest) := by
      intro next isNext connective isConnective
      cases Option.mem_some.mp isNext
      cases connective <;> cases isConnective
    dsimp only
    rw [List.cons_append, List.nil_append, readBack.alone true room inside _ insideSame stops,
      limited_bind, limited_succ_succ]

/-- What binds more strongly is read as a first operand, after which nothing goes on with the chain.
-/
theorem ReadBack.tighter {finish nesting : Nat} {connective : Connective} {tokens : List Token}
    {formula : Formula} (readBack : ReadBack finish connective.tighter nesting tokens formula) :
    ReadBack finish connective.precedence nesting tokens formula := by
  apply ReadBack.ofChain
  intro enclosed room lexemes rest same stops
  rw [outcome_read_precedence, readBack.alone enclosed room lexemes rest same stops, limited_bind]

/-- A chain is read up to its last connective, and then one operand more is read. -/
theorem ReadBack.chain {finish nesting more : Nat} {connective : Connective}
    {tokens others : List Token} {left right : Formula}
    (groupsLeft : connective.groupsRight = false)
    (leftBack : ReadBack finish connective.precedence nesting tokens left)
    (rightBack : ReadBack finish connective.tighter more others right) :
    ReadBack finish connective.precedence (max nesting more)
      (tokens ++ connective.token :: others) (.binary connective left right) := by
  apply ReadBack.ofChain
  intro enclosed room lexemes rest same stops
  obtain ⟨first, second, rfl, leftSame, same⟩ := List.map_eq_append_iff.mp same
  obtain ⟨lexeme, last, rfl, follows, rightSame⟩ := List.map_eq_cons_iff.mp same
  rw [List.append_assoc, List.cons_append,
    leftBack.inChain connective enclosed room first _ rfl groupsLeft leftSame
      (stops_tighter _ follows),
    continued_chain groupsLeft follows,
    rightBack.alone enclosed room last rest rightSame stops, limited_bind, limited_limited]

/-- The right operand of an arrow is nested in it and takes one room. The left one does not. -/
theorem ReadBack.arrow {finish nesting more : Nat} {connective : Connective}
    {tokens others : List Token} {left right : Formula}
    (groupsRight : connective.groupsRight = true)
    (leftBack : ReadBack finish connective.tighter nesting tokens left)
    (rightBack : ReadBack finish connective.precedence more others right) :
    ReadBack finish connective.precedence (max nesting (more + 1))
      (tokens ++ connective.token :: others) (.binary connective left right) where
  alone := by
    intro enclosed room lexemes rest same stops
    obtain ⟨first, second, rfl, leftSame, same⟩ := List.map_eq_append_iff.mp same
    obtain ⟨lexeme, last, rfl, follows, rightSame⟩ := List.map_eq_cons_iff.mp same
    rw [List.append_assoc, List.cons_append, outcome_read_precedence,
      leftBack.alone enclosed room first _ leftSame (stops_tighter _ follows), limited_bind]
    dsimp only
    rw [continued_right groupsRight follows, ← limited_limited]
    cases room with
    | zero => rfl
    | succ room =>
      dsimp only
      rw [rightBack.alone enclosed room last rest rightSame stops, limited_bind, limited_succ_succ]
  inChain := by
    intro other enclosed room lexemes rest atLevel groupsLeft
    cases Connective.eq_of_precedence_eq atLevel
    rw [groupsRight] at groupsLeft
    cases groupsLeft

/-- Every derivation is read back. -/
theorem Derives.readBack {level : Precedence} {nesting : Nat} {tokens : List Token}
    {formula : Formula} (derivation : Derives level nesting tokens formula) (finish : Nat) :
    ReadBack finish level nesting tokens formula := by
  induction derivation with
  | top =>
    apply ReadBack.ofLeaf
    intro enclosed room position rest
    exact outcome_read_top position rest
  | bottom =>
    apply ReadBack.ofLeaf
    intro enclosed room position rest
    exact outcome_read_bottom position rest
  | atom leaf =>
    apply ReadBack.ofLeaf
    intro enclosed room position rest
    exact outcome_read_atom leaf position rest
  | not _ inductionHypothesis => exact inductionHypothesis.not
  | enclosed _ inductionHypothesis => exact inductionHypothesis.enclosed
  | tighter _ _ inductionHypothesis => exact inductionHypothesis.tighter
  | chain _ groupsLeft _ _ leftHypothesis rightHypothesis =>
    exact leftHypothesis.chain groupsLeft rightHypothesis
  | arrow _ groupsRight _ _ leftHypothesis rightHypothesis =>
    exact leftHypothesis.arrow groupsRight rightHypothesis

/-- Lexemes whose tokens derive a formula are read as the formula, unless the derivation
or the formula is too deep. -/
theorem ofLexemes_of_derives {nesting : Nat} {tokens : List Token} {formula : Formula}
    (derivation : Derives .iff nesting tokens formula) {lexemes : List Lexeme}
    (same : lexemes.map Lexeme.token = tokens) (finish : Nat) :
    ofLexemes lexemes finish =
      if nesting ≤ depthLimit ∧ formula.depth ≤ depthLimit then .ok formula
      else .error .tooDeep := by
  have stops : Stops .iff [] := by
    intro lexeme isNext
    cases isNext
  have given := (derivation.readBack finish).alone false depthLimit lexemes [] same stops
  rw [List.append_nil] at given
  cases lexemes with
  | nil => exact absurd same.symm derivation.ne_nil
  | cons first more =>
    by_cases room : nesting ≤ depthLimit
    · obtain ⟨shorter, reading⟩ := eq_ok_of_outcome (given.trans (if_pos room))
      simp only [ofLexemes, reading]
      by_cases shallow : formula.depth ≤ depthLimit
      · rw [if_neg (Nat.not_lt.mpr shallow), if_pos ⟨room, shallow⟩]
      · rw [if_pos (Nat.lt_of_not_le shallow), if_neg (fun both => shallow both.2)]
    · have reading := eq_error_of_outcome (given.trans (if_neg room))
      simp only [ofLexemes, reading]
      rw [if_neg (fun both => room both.1)]

/-- The text of tokens which derive a formula is parsed as the formula, unless the
derivation or the formula is too deep. -/
theorem parse_join {nesting : Nat} {tokens : List Token} {formula : Formula}
    (derivation : Derives .iff nesting tokens formula) :
    parse (Token.join tokens) =
      if nesting ≤ depthLimit ∧ formula.depth ≤ depthLimit then .ok formula
      else .error .tooDeep := by
  rw [parse, Token.lexemes_join derivation.separated derivation.named]
  exact ofLexemes_of_derives derivation (Token.map_token_placed 0 tokens) _

end BeliefRevision.Formula
