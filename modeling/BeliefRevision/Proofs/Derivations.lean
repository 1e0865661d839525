import BeliefRevision.Proofs.Printing

/-!
# Derivations

A derivation of the grammar of formulas is the tree of the rules by which tokens make up
a formula. At each precedence of a connective the first operand, which binds more
strongly, is followed by what else belongs to it: by any number of further operands where
the connective groups to the left, by at most one, which takes all that follows, where it
groups to the right.

A derivation can be told from its tokens, as one token decides at each point which rule
was used. The grammar is therefore unambiguous.
-/

namespace BeliefRevision

/-- The parts of a formula which the grammar has rules for. -/
inductive Part where
  /-- A formula which binds at least as strongly as the precedence. -/
  | level (precedence : Precedence)
  /-- What may follow the first operand of the connective. -/
  | more (connective : Connective)

namespace Part

/-- What the part stands for: a formula, or what becomes of the formula before it. -/
abbrev Value : Part → Type
  | .level _ => Formula
  | .more _ => Formula → Formula

/-- The precedence at which the part stands. -/
def precedence : Part → Precedence
  | .level precedence => precedence
  | .more connective => connective.precedence

/-- Nothing comes next which the part could go on with. -/
def Ends (part : Part) (rest : List Token) : Prop :=
  ∀ token ∈ rest.head?, ∀ connective : Connective, token = connective.token →
    connective.precedence.rank < part.precedence.rank

/-- Every part ends where there are no more tokens. -/
theorem ends_nil (part : Part) : part.Ends [] := by
  intro token isNext
  cases isNext

/-- A closing parenthesis ends every part. -/
theorem ends_closing (part : Part) (rest : List Token) : part.Ends (.closing :: rest) := by
  intro token isNext connective isConnective
  cases Option.mem_some.mp isNext
  cases connective <;> cases isConnective

end Part

/-- Whether a formula may begin with the token. -/
def Token.beginsFormula : Token → Bool
  | .atom _ => true
  | .top => true
  | .bottom => true
  | .not => true
  | .opening => true
  | .and => false
  | .or => false
  | .implies => false
  | .iff => false
  | .closing => false

/-- No token but a connective and the closing parenthesis is none that a formula begins with. -/
theorem Token.beginsFormula_of_ne {token : Token} (notClosing : token ≠ .closing)
    (noConnective : ∀ connective : Connective, token ≠ connective.token) :
    token.beginsFormula = true := by
  cases token with
  | atom _ | top | bottom | not | opening => rfl
  | closing => exact absurd rfl notClosing
  | and => exact absurd rfl (noConnective .and)
  | or => exact absurd rfl (noConnective .or)
  | implies => exact absurd rfl (noConnective .implies)
  | iff => exact absurd rfl (noConnective .iff)

/-- A connective of two operands binds more weakly than a negation. -/
theorem Connective.precedence_ne_not (connective : Connective) : connective.precedence ≠ .not := by
  cases connective <;> decide

/-- The rules of the grammar, as trees, where a unary formula is one which binds as
strongly as a negation. An atom of a derivation has a name.

    iff     := implies ( '↔' iff )?
    implies := or ( '→' implies )?
    or      := and ( '∨' and )*
    and     := unary ( '∧' unary )*
    unary   := '¬' unary | '(' iff ')' | atom | '⊤' | '⊥'
-/
inductive Derivation : Part → Type where
  | top : Derivation (.level .not)
  | bottom : Derivation (.level .not)
  | atom (leaf : Atom) : Derivation (.level .not)
  | not (operand : Derivation (.level .not)) : Derivation (.level .not)
  | enclosed (inner : Derivation (.level .iff)) : Derivation (.level .not)
  | operands {precedence : Precedence} (connective : Connective)
      (binds : connective.precedence = precedence)
      (first : Derivation (.level connective.tighter)) (more : Derivation (.more connective)) :
      Derivation (.level precedence)
  | finished (connective : Connective) : Derivation (.more connective)
  | chained (connective : Connective) (groupsLeft : connective.groupsRight = false)
      (next : Derivation (.level connective.tighter)) (more : Derivation (.more connective)) :
      Derivation (.more connective)
  | arrow (connective : Connective) (groupsRight : connective.groupsRight = true)
      (right : Derivation (.level connective.precedence)) : Derivation (.more connective)

namespace Derivation

/-- The tokens which are derived. -/
def tokens {part : Part} : Derivation part → List Token
  | .top => [.top]
  | .bottom => [.bottom]
  | .atom leaf => [.atom leaf.name]
  | .not operand => .not :: operand.tokens
  | .enclosed inner => .opening :: inner.tokens ++ [.closing]
  | .operands _ _ first more => first.tokens ++ more.tokens
  | .finished _ => []
  | .chained connective _ next more => connective.token :: (next.tokens ++ more.tokens)
  | .arrow connective _ right => connective.token :: right.tokens

/-- What the tokens stand for: a chain groups to the left, and an arrow has all that
follows it as its right operand. -/
def value {part : Part} : Derivation part → part.Value
  | .top => Formula.top
  | .bottom => Formula.bottom
  | .atom leaf => Formula.atom leaf
  | .not operand => Formula.not operand.value
  | .enclosed inner => inner.value
  | .operands _ _ first more => more.value first.value
  | .finished _ => fun left => left
  | .chained connective _ next more =>
    fun left => more.value (.binary connective left next.value)
  | .arrow connective _ right => fun left => .binary connective left right.value

/-- The greatest number of operands of negations, parentheses and right operands of
arrows, taken together, inside which a point of the derivation lies. -/
def nesting {part : Part} : Derivation part → Nat
  | .top => 0
  | .bottom => 0
  | .atom _ => 0
  | .not operand => operand.nesting + 1
  | .enclosed inner => inner.nesting + 1
  | .operands _ _ first more => max first.nesting more.nesting
  | .finished _ => 0
  | .chained _ _ next more => max next.nesting more.nesting
  | .arrow _ _ right => right.nesting + 1

/-- The first token of a formula is found by going down from first operand to first operand. -/
theorem exists_beginsFormula {part : Part} (derivation : Derivation part)
    {level : Precedence} (isLevel : part = .level level) :
    ∃ first rest, derivation.tokens = first :: rest ∧ first.beginsFormula = true := by
  induction derivation generalizing level with
  | top => exact ⟨_, _, rfl, rfl⟩
  | bottom => exact ⟨_, _, rfl, rfl⟩
  | atom leaf => exact ⟨_, _, rfl, rfl⟩
  | not operand _ => exact ⟨_, _, rfl, rfl⟩
  | enclosed inner _ => exact ⟨_, _, rfl, rfl⟩
  | operands connective binds first more firstHypothesis _ =>
    obtain ⟨token, rest, tokens, begins⟩ := firstHypothesis rfl
    refine ⟨token, rest ++ more.tokens, ?_, begins⟩
    rw [Derivation.tokens, tokens, List.cons_append]
  | finished connective => cases isLevel
  | chained connective _ next more _ _ => cases isLevel
  | arrow connective _ right _ => cases isLevel

/-- What may follow a first operand begins with the connective, if with anything. -/
theorem ends_tighter {connective : Connective} (more : Derivation (.more connective))
    {rest : List Token} (ends : (Part.more connective).Ends rest) :
    (Part.level connective.tighter).Ends (more.tokens ++ rest) := by
  have next := connective.rank_tighter
  have begins {others : List Token} :
      (Part.level connective.tighter).Ends (connective.token :: others) := by
    intro token isNext other isOther
    cases Option.mem_some.mp isNext
    cases Connective.eq_of_token_eq isOther
    exact next ▸ Nat.lt_succ_self _
  cases more with
  | finished =>
    intro token isNext other isOther
    exact next ▸ Nat.lt_succ_of_lt (ends token isNext other isOther)
  | chained _ _ _ | arrow _ _ => exact begins

/-- Where a part ends, its connective does not follow. -/
theorem not_ends_token (connective : Connective) (rest : List Token) :
    ¬ (Part.more connective).Ends (connective.token :: rest) := by
  intro ends
  exact Nat.lt_irrefl _ (ends _ rfl connective rfl)

/-- Where the tokens of the derivation are followed by what ends it, no other derivation
and no other rest give the same tokens. -/
def IsTold {part : Part} (first : Derivation part) : Prop :=
  ∀ (second : Derivation part) {rest others : List Token}, part.Ends rest → part.Ends others →
    first.tokens ++ rest = second.tokens ++ others → first = second ∧ rest = others

/-- An atom is told by its one token, whose name is that of the atom. -/
theorem isTold_atom (leaf : Atom) : (atom leaf).IsTold := by
  intro second rest others _ _ same
  cases second with
  | atom other =>
    obtain ⟨sameToken, sameRest⟩ := List.cons.inj same
    have sameName : leaf.name = other.name := Token.atom.inj sameToken
    cases leaf
    cases other
    cases sameName
    exact ⟨rfl, sameRest⟩
  | top | bottom | not _ | enclosed _ => cases (List.cons.inj same).1
  | operands connective binds _ _ => exact absurd binds connective.precedence_ne_not

/-- A negation is told by its sign, and then by what is told of its operand. -/
theorem IsTold.not {operand : Derivation (.level .not)} (told : operand.IsTold) :
    (Derivation.not operand).IsTold := by
  intro second rest others ends alsoEnds same
  cases second with
  | not other =>
    obtain ⟨rfl, sameRest⟩ := told other ends alsoEnds (List.cons.inj same).2
    exact ⟨rfl, sameRest⟩
  | top | bottom | atom _ | enclosed _ => cases (List.cons.inj same).1
  | operands connective binds _ _ => exact absurd binds connective.precedence_ne_not

/-- A formula in parentheses is told by the opening one. The formula inside ends at the closing one,
wherever that stands. -/
theorem IsTold.enclosed {inner : Derivation (.level .iff)} (told : inner.IsTold) :
    (Derivation.enclosed inner).IsTold := by
  intro second rest others _ _ same
  cases second with
  | enclosed other =>
    have sameInside : inner.tokens ++ .closing :: rest = other.tokens ++ .closing :: others := by
      simpa [tokens] using same
    obtain ⟨rfl, sameRest⟩ :=
      told other (Part.ends_closing _ rest) (Part.ends_closing _ others) sameInside
    exact ⟨rfl, (List.cons.inj sameRest).2⟩
  | top | bottom | atom _ | not _ => cases (List.cons.inj same).1
  | operands connective binds _ _ => exact absurd binds connective.precedence_ne_not

/-- An operand and what follows it are told one after the other: the operand ends where
the connective follows and where the whole ends. -/
theorem IsTold.followed {connective : Connective}
    {operand otherOperand : Derivation (.level connective.tighter)}
    {more otherMore : Derivation (.more connective)} (operandTold : operand.IsTold)
    (moreTold : more.IsTold) {rest others : List Token} (ends : (Part.more connective).Ends rest)
    (alsoEnds : (Part.more connective).Ends others)
    (same : operand.tokens ++ more.tokens ++ rest =
      otherOperand.tokens ++ otherMore.tokens ++ others) :
    operand = otherOperand ∧ more = otherMore ∧ rest = others := by
  rw [List.append_assoc, List.append_assoc] at same
  obtain ⟨sameOperand, sameMore⟩ :=
    operandTold otherOperand (more.ends_tighter ends) (otherMore.ends_tighter alsoEnds) same
  exact ⟨sameOperand, moreTold otherMore ends alsoEnds sameMore⟩

/-- A first operand is told from what follows it, as that begins with the connective or ends the
part. -/
theorem IsTold.operands {precedence : Precedence} {connective : Connective}
    (binds : connective.precedence = precedence)
    {operand : Derivation (.level connective.tighter)} {more : Derivation (.more connective)}
    (operandTold : operand.IsTold) (moreTold : more.IsTold) :
    (Derivation.operands connective binds operand more).IsTold := by
  intro second rest others ends alsoEnds same
  cases second with
  | operands other alsoBinds _ _ =>
    cases Connective.eq_of_precedence_eq (binds.trans alsoBinds.symm)
    subst binds
    obtain ⟨rfl, rfl, sameRest⟩ := operandTold.followed moreTold ends alsoEnds same
    exact ⟨rfl, sameRest⟩
  | top | bottom | atom _ | not _ | enclosed _ => exact absurd binds connective.precedence_ne_not

/-- Where no connective follows, a part has no further operands. -/
theorem isTold_finished (connective : Connective) : (finished connective).IsTold := by
  intro second rest others ends _ same
  cases second with
  | finished => exact ⟨rfl, same⟩
  | chained _ _ _ _ | arrow _ _ _ =>
    have follows : rest = connective.token :: _ := same
    exact absurd (follows ▸ ends) (not_ends_token connective _)

/-- A further operand of a chain is told by the connective before it, and so is the rest of the
chain. -/
theorem IsTold.chained {connective : Connective} (groupsLeft : connective.groupsRight = false)
    {next : Derivation (.level connective.tighter)} {more : Derivation (.more connective)}
    (nextTold : next.IsTold) (moreTold : more.IsTold) :
    (Derivation.chained connective groupsLeft next more).IsTold := by
  intro second rest others ends alsoEnds same
  cases second with
  | finished =>
    have follows : others = connective.token :: _ := same.symm
    exact absurd (follows ▸ alsoEnds) (not_ends_token connective _)
  | chained _ _ _ _ =>
    obtain ⟨rfl, rfl, sameRest⟩ :=
      nextTold.followed moreTold ends alsoEnds (List.cons.inj same).2
    exact ⟨rfl, sameRest⟩
  | arrow _ groupsRight _ =>
    rw [groupsLeft] at groupsRight
    cases groupsRight

/-- The right operand of an arrow is told by the arrow before it, and is all that follows. -/
theorem IsTold.arrow {connective : Connective} (groupsRight : connective.groupsRight = true)
    {right : Derivation (.level connective.precedence)} (told : right.IsTold) :
    (Derivation.arrow connective groupsRight right).IsTold := by
  intro second rest others ends alsoEnds same
  cases second with
  | finished =>
    have follows : others = connective.token :: _ := same.symm
    exact absurd (follows ▸ alsoEnds) (not_ends_token connective _)
  | chained _ groupsLeft _ _ =>
    rw [groupsRight] at groupsLeft
    cases groupsLeft
  | arrow _ _ other =>
    obtain ⟨rfl, sameRest⟩ := told other ends alsoEnds (List.cons.inj same).2
    exact ⟨rfl, sameRest⟩

/-- Every derivation can be told: at each point the next token decides on the rule. -/
theorem isTold {part : Part} (derivation : Derivation part) : derivation.IsTold := by
  induction derivation with
  | top =>
    intro second rest others _ _ same
    cases second with
    | top => exact ⟨rfl, (List.cons.inj same).2⟩
    | bottom | atom _ | not _ | enclosed _ => cases (List.cons.inj same).1
    | operands connective binds _ _ => exact absurd binds connective.precedence_ne_not
  | bottom =>
    intro second rest others _ _ same
    cases second with
    | bottom => exact ⟨rfl, (List.cons.inj same).2⟩
    | top | atom _ | not _ | enclosed _ => cases (List.cons.inj same).1
    | operands connective binds _ _ => exact absurd binds connective.precedence_ne_not
  | atom leaf => exact isTold_atom leaf
  | not _ inductionHypothesis => exact inductionHypothesis.not
  | enclosed _ inductionHypothesis => exact inductionHypothesis.enclosed
  | operands _ binds _ _ operandHypothesis moreHypothesis =>
    exact operandHypothesis.operands binds moreHypothesis
  | finished connective => exact isTold_finished connective
  | chained _ groupsLeft _ _ nextHypothesis moreHypothesis =>
    exact nextHypothesis.chained groupsLeft moreHypothesis
  | arrow _ groupsRight _ inductionHypothesis => exact inductionHypothesis.arrow groupsRight

/-- The grammar is unambiguous: a part has one derivation at most from given tokens. -/
theorem tokens_injective (part : Part) : Function.Injective (@tokens part) := by
  intro first second same
  have together : first.tokens ++ [] = second.tokens ++ [] := by
    rw [List.append_nil, List.append_nil, same]
  exact (first.isTold second part.ends_nil part.ends_nil together).1

open Formula (Derives)

/-- The tokens of the derivation derive its value. What follows a first operand does so
together with the tokens before it. -/
def Derived : {part : Part} → Derivation part → Prop
  | .level precedence, derivation =>
    Derives precedence derivation.nesting derivation.tokens derivation.value
  | .more connective, derivation => ∀ {nesting : Nat} {tokens : List Token} {left : Formula},
    Derives connective.leftLeast nesting tokens left →
      Derives connective.precedence (max nesting derivation.nesting) (tokens ++ derivation.tokens)
        (derivation.value left)

/-- The first operand of a connective may stand to the left of it. -/
theorem derives_leftLeast {connective : Connective} {nesting : Nat} {tokens : List Token}
    {operand : Formula} (derivation : Derives connective.tighter nesting tokens operand) :
    Derives connective.leftLeast nesting tokens operand := by
  cases groups : connective.groupsRight with
  | true => simpa only [Connective.leftLeast, groups, if_true] using derivation
  | false =>
    simpa only [Connective.leftLeast, groups, Bool.false_eq_true, if_false] using
      Derives.tighter connective derivation

/-- So may all that has been read of a chain or is the operand of an arrow. -/
theorem derives_of_leftLeast {connective : Connective} {nesting : Nat} {tokens : List Token}
    {left : Formula} (derivation : Derives connective.leftLeast nesting tokens left) :
    Derives connective.precedence nesting tokens left := by
  cases groups : connective.groupsRight with
  | true =>
    simp only [Connective.leftLeast, groups, if_true] at derivation
    exact .tighter connective derivation
  | false =>
    simpa only [Connective.leftLeast, groups, Bool.false_eq_true, if_false] using derivation

/-- Every derivation tree stands for a derivation by the rules, with as much nesting as the tree
has. -/
theorem derived {part : Part} (derivation : Derivation part) : derivation.Derived := by
  induction derivation with
  | top => exact .top
  | bottom => exact .bottom
  | atom leaf => exact .atom leaf
  | not _ inductionHypothesis => exact .not inductionHypothesis
  | enclosed _ inductionHypothesis => exact .enclosed inductionHypothesis
  | operands connective binds operand more operandHypothesis moreHypothesis =>
    subst binds
    exact moreHypothesis (derives_leftLeast operandHypothesis)
  | finished connective =>
    intro nesting tokens left before
    show Derives connective.precedence (max nesting 0) (tokens ++ []) left
    rw [Nat.max_zero, List.append_nil]
    exact derives_of_leftLeast before
  | chained connective groupsLeft next more nextHypothesis moreHypothesis =>
    intro nesting tokens left before
    have leftLeast : connective.leftLeast = connective.precedence := by
      simp [Connective.leftLeast, groupsLeft]
    have joined := Derives.chain connective groupsLeft (derives_of_leftLeast before) nextHypothesis
    have derivation := moreHypothesis (leftLeast ▸ joined)
    rw [Nat.max_assoc, List.append_assoc] at derivation
    exact derivation
  | arrow connective groupsRight right inductionHypothesis =>
    intro nesting tokens left before
    have leftLeast : connective.leftLeast = connective.tighter := by
      simp [Connective.leftLeast, groupsRight]
    exact .arrow connective groupsRight (leftLeast ▸ before) inductionHypothesis

end Derivation
end BeliefRevision
