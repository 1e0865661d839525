import BeliefRevision.Proofs.Printing

/-!
# Grouping of chains

Formulas which differ only in how their chains of conjunctions and of disjunctions are
grouped are printed in the same way and mean the same. One of them has all of these
chains grouped to the left, and only one. It is what is read back when any of them is
printed, unless it is too deep, which takes more than 256 nodes.
-/

namespace BeliefRevision

/-- The connectives which group to the left are associative. -/
theorem Connective.apply_assoc {connective : Connective}
    (groupsLeft : connective.groupsRight = false) (first second third : Bool) :
    connective.apply (connective.apply first second) third =
      connective.apply first (connective.apply second third) := by
  cases connective with
  | and => exact Bool.and_assoc first second third
  | or => exact Bool.or_assoc first second third
  | implies | iff => cases groupsLeft

namespace Formula

/-- The formulas differ in nothing but the grouping of chains of conjunctions and of
chains of disjunctions. -/
inductive SameChains : Formula → Formula → Prop where
  | refl (formula : Formula) : SameChains formula formula
  | symm {first second : Formula} : SameChains first second → SameChains second first
  | trans {first second third : Formula} :
    SameChains first second → SameChains second third → SameChains first third
  | not {first second : Formula} : SameChains first second → SameChains (.not first) (.not second)
  | binary (connective : Connective) {left right otherLeft otherRight : Formula} :
    SameChains left otherLeft → SameChains right otherRight →
      SameChains (.binary connective left right) (.binary connective otherLeft otherRight)
  | regroup {connective : Connective} (groupsLeft : connective.groupsRight = false)
      (first second third : Formula) :
    SameChains (.binary connective first (.binary connective second third))
      (.binary connective (.binary connective first second) third)

/-- Whether no chain of conjunctions or of disjunctions goes on in a right operand. -/
def isGroupedLeft : Formula → Bool
  | .top => true
  | .bottom => true
  | .atom _ => true
  | .not operand => operand.isGroupedLeft
  | .binary connective left right =>
    (connective.groupsRight || right.precedence != connective.precedence) &&
      left.isGroupedLeft && right.isGroupedLeft

/-- The second formula is the first one with its chains grouped to the left and nothing
else changed. -/
structure IsLeftGrouping (formula grouped : Formula) : Prop where
  sameChains : SameChains formula grouped
  groupedLeft : grouped.isGroupedLeft = true

variable {first second formula : Formula}

/-- Regrouping chains keeps the truth value, as conjunction and disjunction are associative. -/
theorem SameChains.eval_eq (same : SameChains first second) (truth : Atom → Bool) :
    first.eval truth = second.eval truth := by
  induction same with
  | refl _ => rfl
  | symm _ inductionHypothesis => exact inductionHypothesis.symm
  | trans _ _ firstHypothesis secondHypothesis => exact firstHypothesis.trans secondHypothesis
  | not _ inductionHypothesis => simp only [eval, inductionHypothesis]
  | binary connective _ _ leftHypothesis rightHypothesis =>
    simp only [eval, leftHypothesis, rightHypothesis]
  | regroup groupsLeft _ _ _ => simp only [eval, Connective.apply_assoc groupsLeft]

/-- Regrouping keeps every node, and so their number. -/
theorem SameChains.size_eq (same : SameChains first second) : first.size = second.size := by
  induction same with
  | refl _ => rfl
  | symm _ inductionHypothesis => exact inductionHypothesis.symm
  | trans _ _ firstHypothesis secondHypothesis => exact firstHypothesis.trans secondHypothesis
  | not _ inductionHypothesis => simp only [size, inductionHypothesis]
  | binary connective _ _ leftHypothesis rightHypothesis =>
    simp only [size, leftHypothesis, rightHypothesis]
  | regroup _ _ _ _ =>
    simp only [size]
    omega

/-- Regrouping keeps the connective at the top, and with it the precedence. -/
theorem SameChains.precedence_eq (same : SameChains first second) :
    first.precedence = second.precedence := by
  induction same with
  | symm _ inductionHypothesis => exact inductionHypothesis.symm
  | trans _ _ firstHypothesis secondHypothesis => exact firstHypothesis.trans secondHypothesis
  | refl _ | not _ _ | binary _ _ _ _ _ | regroup _ _ _ _ => rfl

/-- Within a chain a chain of the same connective stands without parentheses. -/
theorem enclose_chain (connective : Connective) (left right : Formula) (tokens : List Token) :
    enclose connective.precedence (.binary connective left right) tokens = tokens :=
  if_neg (Nat.lt_irrefl _)

/-- Both operands of a chain are enclosed only where they bind more weakly than the chain. So a
chain within a chain has no parentheses on either side. -/
theorem tokens_chain {connective : Connective} (groupsLeft : connective.groupsRight = false)
    (left right : Formula) :
    tokens (.binary connective left right) =
      enclose connective.precedence left left.tokens ++
        connective.token :: enclose connective.precedence right right.tokens := by
  simp only [tokens, Connective.leftLeast, Connective.rightLeast, groupsLeft, Bool.false_eq_true,
    if_false]

/-- The tokens do not tell how a chain is grouped. -/
theorem SameChains.tokens_eq (same : SameChains first second) : first.tokens = second.tokens := by
  induction same with
  | refl _ => rfl
  | symm _ inductionHypothesis => exact inductionHypothesis.symm
  | trans _ _ firstHypothesis secondHypothesis => exact firstHypothesis.trans secondHypothesis
  | not operand inductionHypothesis =>
    simp only [tokens, enclose, inductionHypothesis, operand.precedence_eq]
  | binary connective left right leftHypothesis rightHypothesis =>
    simp only [tokens, enclose, leftHypothesis, rightHypothesis, left.precedence_eq,
      right.precedence_eq]
  | regroup groupsLeft _ _ _ =>
    simp only [tokens_chain groupsLeft, enclose_chain, List.append_assoc, List.cons_append]

/-- Formulas which differ only in the grouping of chains are printed as the same text. -/
theorem SameChains.text_eq (same : SameChains first second) : first.text = second.text :=
  congrArg Token.join same.tokens_eq

/-- Appending the operands of a chain one by one only regroups it. -/
theorem sameChains_graft {connective : Connective} (groupsLeft : connective.groupsRight = false)
    (left right : Formula) :
    SameChains (.binary connective left right) (graft connective left right) := by
  fun_induction graft connective left right with
  | case1 first second inductionHypothesis =>
    exact (SameChains.regroup groupsLeft left first second).trans
      (.binary connective inductionHypothesis (.refl second))
  | case2 other first second _ => exact .refl _
  | case3 right _ => exact .refl _

/-- Grouping to the left changes nothing but the grouping of chains. -/
theorem sameChains_regrouped (formula : Formula) : SameChains formula formula.regrouped := by
  induction formula with
  | top | bottom | atom _ => exact .refl _
  | not operand inductionHypothesis => exact .not inductionHypothesis
  | binary connective left right leftHypothesis rightHypothesis =>
    have operands := SameChains.binary connective leftHypothesis rightHypothesis
    cases groups : connective.groupsRight with
    | true => simpa only [regrouped, groups, if_true] using operands
    | false =>
      simpa only [regrouped, groups, Bool.false_eq_true, if_false] using
        operands.trans (sameChains_graft groups left.regrouped right.regrouped)

/-- A compound is grouped to the left when its operands are and the right one does not go on with
the chain. An arrow may go on there. -/
theorem isGroupedLeft_binary {connective : Connective} {left right : Formula} :
    (binary connective left right).isGroupedLeft = true ↔
      (connective.groupsRight = true ∨ right.precedence ≠ connective.precedence) ∧
        left.isGroupedLeft = true ∧ right.isGroupedLeft = true := by
  simp [isGroupedLeft, and_assoc]

/-- What is grafted behind a chain is taken apart into its operands, and so the whole is grouped to
the left. -/
theorem isGroupedLeft_graft {connective : Connective} {left right : Formula}
    (leftGrouped : left.isGroupedLeft = true) (rightGrouped : right.isGroupedLeft = true) :
    (graft connective left right).isGroupedLeft = true := by
  fun_induction graft connective left right with
  | case1 first second inductionHypothesis =>
    obtain ⟨ends, firstGrouped, secondGrouped⟩ := isGroupedLeft_binary.mp rightGrouped
    exact isGroupedLeft_binary.mpr ⟨ends, inductionHypothesis firstGrouped, secondGrouped⟩
  | case2 other first second notSame =>
    refine isGroupedLeft_binary.mpr ⟨.inr ?_, leftGrouped, rightGrouped⟩
    intro same
    exact notSame (Connective.eq_of_precedence_eq same)
  | case3 right notBinary =>
    refine isGroupedLeft_binary.mpr ⟨.inr ?_, leftGrouped, rightGrouped⟩
    cases right with
    | top | bottom | atom _ | not _ =>
      exact connective.precedence_ne_of_tight (by simp [precedence, Precedence.rank])
    | binary other first second => exact absurd rfl (notBinary other first second)

/-- Regrouping leaves no chain which goes on in a right operand. -/
theorem isGroupedLeft_regrouped (formula : Formula) : formula.regrouped.isGroupedLeft = true := by
  induction formula with
  | top | bottom | atom _ => rfl
  | not operand inductionHypothesis => exact inductionHypothesis
  | binary connective left right leftHypothesis rightHypothesis =>
    unfold regrouped
    split
    · rename_i groupsRight
      exact isGroupedLeft_binary.mpr ⟨.inl groupsRight, leftHypothesis, rightHypothesis⟩
    · exact isGroupedLeft_graft leftHypothesis rightHypothesis

/-- Formulas with the same chains have the same form with its chains grouped to the left. -/
theorem SameChains.regrouped_eq (same : SameChains first second) :
    first.regrouped = second.regrouped := by
  induction same with
  | refl _ => rfl
  | symm _ inductionHypothesis => exact inductionHypothesis.symm
  | trans _ _ firstHypothesis secondHypothesis => exact firstHypothesis.trans secondHypothesis
  | not _ inductionHypothesis => simp only [regrouped, inductionHypothesis]
  | binary connective _ _ leftHypothesis rightHypothesis =>
    simp only [regrouped, leftHypothesis, rightHypothesis]
  | regroup groupsLeft first second third =>
    simp only [regrouped, groupsLeft, Bool.false_eq_true, if_false, graft_assoc]

/-- What is grouped to the left is left as it stands. -/
theorem regrouped_of_isGroupedLeft (grouped : formula.isGroupedLeft = true) :
    formula.regrouped = formula := by
  induction formula with
  | top | bottom | atom _ => rfl
  | not operand inductionHypothesis => simp only [regrouped, inductionHypothesis grouped]
  | binary connective left right leftHypothesis rightHypothesis =>
    obtain ⟨ends, leftGrouped, rightGrouped⟩ := isGroupedLeft_binary.mp grouped
    rw [regrouped, leftHypothesis leftGrouped, rightHypothesis rightGrouped]
    split
    · rfl
    · rename_i groupsLeft
      exact graft_of_precedence_ne (ends.resolve_left groupsLeft) left

/-- There is exactly one way to group all chains to the left. -/
theorem isLeftGrouping_iff {grouped : Formula} :
    formula.IsLeftGrouping grouped ↔ grouped = formula.regrouped := by
  constructor
  · intro grouping
    rw [grouping.sameChains.regrouped_eq, regrouped_of_isGroupedLeft grouping.groupedLeft]
  · rintro rfl
    exact ⟨formula.sameChains_regrouped, formula.isGroupedLeft_regrouped⟩

/-- A path from the root visits no more nodes than there are. -/
theorem height_le_size (formula : Formula) : formula.height ≤ formula.size := by
  induction formula with
  | top | bottom | atom _ => exact Nat.le_refl 1
  | not operand inductionHypothesis => exact Nat.succ_le_succ inductionHypothesis
  | binary connective left right leftHypothesis rightHypothesis =>
    simp only [height, size]
    omega

/-- Parentheses around an operand nest it once more at most. -/
theorem enclosedNesting_le (least : Precedence) (operand : Formula) (nesting : Nat) :
    enclosedNesting least operand nesting ≤ nesting + 1 := by
  unfold enclosedNesting
  split
  · exact Nat.le_refl _
  · exact Nat.le_succ nesting

/-- Each node below the root adds two to the nesting at most: as the operand of a negation
or the right operand of an arrow, and by the parentheses around it. -/
theorem nesting_add_two_le (formula : Formula) : formula.nesting + 2 ≤ 2 * formula.size := by
  induction formula with
  | top | bottom | atom _ => exact Nat.le_refl 2
  | not operand inductionHypothesis =>
    have inPlace := enclosedNesting_le .not operand operand.nesting
    simp only [nesting, size]
    omega
  | binary connective left right leftHypothesis rightHypothesis =>
    have leftInPlace := enclosedNesting_le connective.leftLeast left left.nesting
    have rightInPlace := enclosedNesting_le connective.rightLeast right right.nesting
    have nested : (if connective.groupsRight then 1 else 0) ≤ 1 := by
      split
      · exact Nat.le_refl 1
      · exact Nat.zero_le 1
    simp only [nesting, size]
    omega

/-- A formula of few nodes is shallow enough to be read back. -/
theorem readable_of_size_le (small : formula.size ≤ 256) :
    formula.nesting ≤ depthLimit ∧ formula.regrouped.depth ≤ depthLimit := by
  have limit : depthLimit = 512 := rfl
  have nesting := formula.nesting_add_two_le
  have height := formula.regrouped.height_le_size
  rw [← formula.sameChains_regrouped.size_eq] at height
  rw [depth_eq_height]
  omega

/-- A printed formula is refused as too deep or read as the formula with its chains
grouped to the left, which is printed in the same way and means the same. It is not
refused if it has at most 256 nodes. -/
theorem parse_text_grouped (formula : Formula) :
    (parse formula.text = .error .tooDeep ∨
      ∃ grouped, parse formula.text = .ok grouped ∧
        (∀ other, formula.IsLeftGrouping other ↔ other = grouped) ∧
        grouped.text = formula.text ∧ ∀ truth, grouped.eval truth = formula.eval truth) ∧
      (formula.size ≤ 256 → parse formula.text ≠ .error .tooDeep) := by
  have same := formula.sameChains_regrouped
  have read := formula.parse_text
  constructor
  · by_cases shallow : formula.nesting ≤ depthLimit ∧ formula.regrouped.depth ≤ depthLimit
    · rw [if_pos shallow] at read
      exact .inr ⟨formula.regrouped, read, fun _ => isLeftGrouping_iff, same.text_eq.symm,
        fun truth => (same.eval_eq truth).symm⟩
    · rw [if_neg shallow] at read
      exact .inl read
  · intro small
    rw [read, if_pos (readable_of_size_le small)]
    intro refused
    cases refused

/-- The left operand of the arrow is printed in parentheses and the chain without. -/
theorem parse_text_grouped_arrow :
    size (.implies (.implies .top .bottom) (.and .top (.and .bottom .top))) ≤ 256 ∧
      parse (text (.implies (.implies .top .bottom) (.and .top (.and .bottom .top)))) ≠
        .error .tooDeep :=
  ⟨by decide, (parse_text_grouped _).2 (by decide)⟩

end Formula
end BeliefRevision
