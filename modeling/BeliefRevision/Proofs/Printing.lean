import BeliefRevision.Formula.Printer
import BeliefRevision.Proofs.Depth
import BeliefRevision.Proofs.Grammar

/-!
# Reading what was printed

Parentheses are left out between conjunctions and between disjunctions, on either side.
What is printed therefore derives the formula with each of these chains grouped to the
left, and is parsed as that unless it is too deep.
-/

namespace BeliefRevision

/-- Precedences of the same rank are the same. -/
theorem Precedence.eq_of_rank_eq {first second : Precedence} (same : first.rank = second.rank) :
    first = second := by
  cases first <;> cases second <;> first | rfl | cases same

/-- All connectives have ranks below that of a negation. -/
theorem Connective.rank_precedence_le (connective : Connective) :
    connective.precedence.rank ≤ 3 := by
  cases connective <;> decide

/-- No connective binds as strongly as a negation. -/
theorem Connective.precedence_ne_of_tight {level : Precedence} (tight : 4 ≤ level.rank)
    (connective : Connective) : level ≠ connective.precedence := by
  intro same
  have limit := connective.rank_precedence_le
  rw [same] at tight
  omega

namespace Formula

/-- The chain of the connective which has the left formula first and then the operands
of the right one, grouped to the left. -/
def graft (connective : Connective) (left : Formula) : Formula → Formula
  | .binary other first second =>
    if other = connective then .binary connective (graft connective left first) second
    else .binary connective left (.binary other first second)
  | right => .binary connective left right

/-- The formula with its chains of conjunctions and of disjunctions grouped to the left. -/
def regrouped : Formula → Formula
  | .top => .top
  | .bottom => .bottom
  | .atom leaf => .atom leaf
  | .not operand => .not operand.regrouped
  | .binary connective left right =>
    if connective.groupsRight then .binary connective left.regrouped right.regrouped
    else graft connective left.regrouped right.regrouped

/-- The nesting of an operand, which parentheses add to. -/
def enclosedNesting (least : Precedence) (operand : Formula) (nesting : Nat) : Nat :=
  if operand.precedence.rank < least.rank then nesting + 1 else nesting

/-- How deep negations, parentheses and right operands of arrows are nested in what is
printed. -/
def nesting : Formula → Nat
  | .top => 0
  | .bottom => 0
  | .atom _ => 0
  | .not operand => enclosedNesting .not operand operand.nesting + 1
  | .binary connective left right =>
    max (enclosedNesting connective.leftLeast left left.nesting)
      (enclosedNesting connective.rightLeast right right.nesting +
        if connective.groupsRight then 1 else 0)

/-- The precedence at which the formula is derived without parentheses around it. -/
def level : Formula → Precedence
  | .top => .not
  | .bottom => .not
  | .atom _ => .not
  | .not _ => .not
  | .binary connective _ _ => connective.precedence

/-- A formula is derived at its own precedence, or as a unary formula where it binds even more
strongly. -/
theorem rank_level (formula : Formula) :
    formula.level.rank = min formula.precedence.rank Precedence.not.rank := by
  cases formula with
  | top | bottom | atom _ | not _ => rfl
  | binary connective _ _ => cases connective <;> rfl

/-- Grafting a chain keeps its connective at the top. -/
theorem precedence_graft (connective : Connective) (left right : Formula) :
    (graft connective left right).precedence = connective.precedence := by
  unfold graft
  split
  · split <;> rfl
  · rfl

/-- Regrouping keeps the precedence of a formula. -/
@[simp] theorem precedence_regrouped (formula : Formula) :
    formula.regrouped.precedence = formula.precedence := by
  cases formula with
  | top | bottom | atom _ | not _ => rfl
  | binary connective left right =>
    unfold regrouped
    split
    · rfl
    · exact precedence_graft _ _ _

/-- A formula which is no chain of the connective is one operand. -/
theorem graft_of_precedence_ne {connective : Connective} {right : Formula}
    (other : right.precedence ≠ connective.precedence) (left : Formula) :
    graft connective left right = .binary connective left right := by
  unfold graft
  split
  · rename_i root first second
    have notSame : root ≠ connective := by
      intro same
      subst same
      exact other rfl
    rw [if_neg notSame]
  · rfl

/-- Grouping to the left does not depend on how the operands were grouped. -/
theorem graft_assoc (connective : Connective) (first second third : Formula) :
    graft connective (graft connective first second) third =
      graft connective first (graft connective second third) := by
  fun_induction graft connective second third with
  | case1 left right inductionHypothesis =>
    rw [graft, if_pos rfl, inductionHypothesis, graft, if_pos rfl]
  | case2 other left right notSame =>
    rw [graft, if_neg notSame, graft, if_pos rfl]
  | case3 third notBinary =>
    rw [graft.eq_2 connective _ third notBinary, graft, if_pos rfl]

/-- What is derived at a precedence is derived at each looser one. -/
theorem Derives.loosen {level : Precedence} {nesting : Nat} {tokens : List Token}
    {formula : Formula} (derivation : Derives level nesting tokens formula)
    (least : Precedence) (le : least.rank ≤ level.rank) (bound : level.rank ≤ Precedence.not.rank) :
    Derives least nesting tokens formula := by
  induction distance : level.rank - least.rank generalizing least with
  | zero =>
    have same : least = level := Precedence.eq_of_rank_eq (by omega)
    rw [same]
    exact derivation
  | succ distance inductionHypothesis =>
    obtain ⟨connective, rfl⟩ : ∃ connective : Connective, connective.precedence = least := by
      have isLess : least.rank < 4 := by
        have limit : Precedence.not.rank = 4 := rfl
        omega
      cases least with
      | iff => exact ⟨.iff, rfl⟩
      | implies => exact ⟨.implies, rfl⟩
      | or => exact ⟨.or, rfl⟩
      | and => exact ⟨.and, rfl⟩
      | not | atomic => simp [Precedence.rank] at isLess
    have next := connective.rank_tighter
    exact .tighter connective (inductionHypothesis connective.tighter (by omega) (by omega))

variable {formula : Formula}

/-- An operand is derived in its place, in parentheses where it stands in them. -/
theorem derives_enclose
    (derivation : Derives formula.level formula.nesting formula.tokens formula.regrouped)
    {least : Precedence} (bound : least.rank ≤ Precedence.not.rank) :
    Derives least (enclosedNesting least formula formula.nesting)
      (enclose least formula formula.tokens) formula.regrouped := by
  have level := formula.rank_level
  by_cases looser : formula.precedence.rank < least.rank
  · rw [enclosedNesting, if_pos looser, enclose, if_pos looser]
    have inside : Derives .iff formula.nesting formula.tokens formula.regrouped :=
      derivation.loosen .iff (Nat.zero_le _) (by omega)
    exact inside.enclosed.loosen least bound (Nat.le_refl _)
  · rw [enclosedNesting, if_neg looser, enclose, if_neg looser]
    exact derivation.loosen least (by omega) (by omega)

/-- A formula which is no chain of the connective is derived as the next operand of a
chain. Whether it stands in parentheses is the same at the next stronger precedence. -/
theorem derives_graft_of_ne
    (derivation : Derives formula.level formula.nesting formula.tokens formula.regrouped)
    {connective : Connective} (groupsLeft : connective.groupsRight = false)
    (other : formula.precedence ≠ connective.precedence) {nesting : Nat} {tokens : List Token}
    {left : Formula} (before : Derives connective.precedence nesting tokens left) :
    Derives connective.precedence
      (max nesting (enclosedNesting connective.precedence formula formula.nesting))
      (tokens ++ connective.token :: enclose connective.precedence formula formula.tokens)
      (graft connective left formula.regrouped) := by
  have next := connective.rank_tighter
  have limit := connective.rank_precedence_le
  have notSame : formula.precedence.rank ≠ connective.precedence.rank := by
    intro same
    exact other (Precedence.eq_of_rank_eq same)
  have looser : formula.precedence.rank < connective.tighter.rank ↔
      formula.precedence.rank < connective.precedence.rank := by omega
  have bound : connective.tighter.rank ≤ Precedence.not.rank := by
    have four : Precedence.not.rank = 4 := rfl
    omega
  have operand := derives_enclose derivation bound
  rw [graft_of_precedence_ne (formula.precedence_regrouped ▸ other)]
  simp only [enclosedNesting, enclose, looser] at operand ⊢
  exact .chain connective groupsLeft before operand

/-- The printed tokens derive the formula with its chains grouped to the left, by
themselves and as further operands of a chain. -/
structure PrintsBack (formula : Formula) : Prop where
  alone : Derives formula.level formula.nesting formula.tokens formula.regrouped
  inChain : ∀ {connective : Connective} {nesting : Nat} {tokens : List Token} {left : Formula},
    connective.groupsRight = false → Derives connective.precedence nesting tokens left →
      Derives connective.precedence
        (max nesting (enclosedNesting connective.precedence formula formula.nesting))
        (tokens ++ connective.token :: enclose connective.precedence formula formula.tokens)
        (graft connective left formula.regrouped)

/-- What is no chain needs no more than its own derivation. -/
theorem PrintsBack.ofAlone
    (alone : Derives formula.level formula.nesting formula.tokens formula.regrouped)
    (notChain : ∀ connective : Connective, connective.groupsRight = false →
      formula.precedence ≠ connective.precedence) : PrintsBack formula where
  alone := alone
  inChain := by
    intro connective nesting tokens left groupsLeft before
    exact derives_graft_of_ne alone groupsLeft (notChain connective groupsLeft) before

/-- Negations and what binds more strongly are no chains. -/
theorem PrintsBack.ofTight
    (alone : Derives formula.level formula.nesting formula.tokens formula.regrouped)
    (tight : 4 ≤ formula.precedence.rank) : PrintsBack formula := by
  apply PrintsBack.ofAlone alone
  intro connective _
  exact connective.precedence_ne_of_tight tight

/-- An arrow is printed with its left operand enclosed if that is an arrow too, and is read back
with all that follows as its right operand. -/
theorem PrintsBack.arrow {connective : Connective} {left right : Formula}
    (groupsRight : connective.groupsRight = true) (leftBack : PrintsBack left)
    (rightBack : PrintsBack right) : PrintsBack (.binary connective left right) := by
  have next := connective.rank_tighter
  have limit := connective.rank_precedence_le
  have four : Precedence.not.rank = 4 := rfl
  apply PrintsBack.ofAlone
  · have before := derives_enclose leftBack.alone
      (show connective.tighter.rank ≤ Precedence.not.rank by omega)
    have after := derives_enclose rightBack.alone
      (show connective.precedence.rank ≤ Precedence.not.rank by omega)
    have derivation := Derives.arrow connective groupsRight before after
    simpa only [level, Formula.nesting, tokens, regrouped, Connective.leftLeast,
      Connective.rightLeast, groupsRight, if_true] using derivation
  · intro other groupsLeft same
    rw [← Connective.eq_of_precedence_eq same, groupsRight] at groupsLeft
    cases groupsLeft

/-- The operands of a chain follow each other, first those of the left formula and then
those of the right one. -/
theorem PrintsBack.chain {connective : Connective} {left right : Formula}
    (groupsLeft : connective.groupsRight = false) (leftBack : PrintsBack left)
    (rightBack : PrintsBack right) : PrintsBack (.binary connective left right) := by
  have limit := connective.rank_precedence_le
  have four : Precedence.not.rank = 4 := rfl
  have alone : Derives connective.precedence (Formula.nesting (.binary connective left right))
      (tokens (.binary connective left right)) (regrouped (.binary connective left right)) := by
    have before := derives_enclose leftBack.alone
      (show connective.precedence.rank ≤ Precedence.not.rank by omega)
    have derivation := rightBack.inChain groupsLeft before
    simpa only [Formula.nesting, tokens, regrouped, Connective.leftLeast, Connective.rightLeast,
      groupsLeft, Bool.false_eq_true, if_false, Nat.add_zero] using derivation
  refine ⟨alone, ?_⟩
  intro other nesting others first otherGroupsLeft before
  by_cases same : other = connective
  · subst same
    have withLeft := leftBack.inChain groupsLeft before
    have withBoth := rightBack.inChain groupsLeft withLeft
    have notEnclosed :
        ¬ (Formula.binary other left right).precedence.rank < other.precedence.rank :=
      Nat.lt_irrefl _
    rw [enclosedNesting, if_neg notEnclosed, enclose, if_neg notEnclosed]
    simpa only [Formula.nesting, tokens, regrouped, Connective.leftLeast, Connective.rightLeast,
      groupsLeft, Bool.false_eq_true, if_false, Nat.add_zero, graft_assoc, Nat.max_assoc,
      List.append_assoc, List.cons_append] using withBoth
  · refine @derives_graft_of_ne (.binary connective left right) alone other otherGroupsLeft ?_
      _ _ _ before
    intro samePrecedence
    exact same (Connective.eq_of_precedence_eq samePrecedence).symm

/-- Every formula is printed so that it reads back. -/
theorem printsBack (formula : Formula) : PrintsBack formula := by
  induction formula with
  | top => exact .ofTight .top (by decide)
  | bottom => exact .ofTight .bottom (by decide)
  | atom leaf => exact .ofTight (.atom leaf) (Nat.le_succ 4)
  | not operand inductionHypothesis =>
    have inPlace := derives_enclose inductionHypothesis.alone (Nat.le_refl Precedence.not.rank)
    exact .ofTight (.not inPlace) (Nat.le_refl 4)
  | binary connective left right leftHypothesis rightHypothesis =>
    cases groups : connective.groupsRight with
    | true => exact .arrow groups leftHypothesis rightHypothesis
    | false => exact .chain groups leftHypothesis rightHypothesis

/-- A printed formula is parsed as itself with its chains grouped to the left, unless it
is too deep. -/
theorem parse_text (formula : Formula) :
    parse formula.text =
      if formula.nesting ≤ depthLimit ∧ formula.regrouped.depth ≤ depthLimit then
        .ok formula.regrouped
      else .error .tooDeep := by
  have derivation := formula.printsBack.alone.loosen .iff (Nat.zero_le _) (by
    rw [formula.rank_level]
    exact Nat.min_le_right _ _)
  exact parse_join derivation

example : (Formula.and .top (.and .bottom .top)).regrouped = .and (.and .top .bottom) .top := by
  decide

end Formula
end BeliefRevision
