import BeliefRevision.Proofs.Grouping
import BeliefRevision.Proofs.Rereading
import Mathlib.Data.List.MinMax

/-!
# Reading the text of clauses

A set of clauses is written as a formula is printed: as the conjunction of its clauses, each a
disjunction of literals, both grouped to the left. A conjunction of nothing is the true constant
and a disjunction of nothing the false one. The text is therefore read as that formula, unless
it is too deep, and the clauses are read off the formula again, in the same order.

No depth is lost: each clause beyond the first adds one level, each literal of a clause beyond
its first one more, and the sign of a literal another.
-/

namespace BeliefRevision

namespace Formula

/-- The operands joined by the connective and grouped to the left, or what is neutral for it
where there is none. -/
def joined (connective : Connective) (neutral : Formula) : List Formula → Formula
  | [] => neutral
  | first :: others => others.foldl (.binary connective) first

/-- A further operand is the right one of a new root. -/
theorem joined_concat (connective : Connective) (neutral first : Formula) (others : List Formula)
    (last : Formula) : joined connective neutral (first :: (others ++ [last])) =
      .binary connective (joined connective neutral (first :: others)) last :=
  List.foldl_concat _ _ _ _

/-- Two operands or more make up a chain of the connective. -/
theorem precedence_joined (connective : Connective) (neutral first second : Formula)
    (others : List Formula) :
    (joined connective neutral (first :: second :: others)).precedence = connective.precedence := by
  induction others using List.reverseRecOn with
  | nil => rfl
  | append_singleton others last _ =>
    rw [← List.cons_append, joined_concat]
    rfl

/-- The text of an operand of the connective, in parentheses where it stands in them. -/
def textInPlace (connective : Connective) (operand : Formula) : String :=
  Token.join (enclose connective.precedence operand operand.tokens)

/-- An operand which binds as strongly as the connective is written as it stands. -/
theorem textInPlace_of_le {connective : Connective} {operand : Formula}
    (tight : connective.precedence.rank ≤ operand.precedence.rank) :
    textInPlace connective operand = operand.text :=
  congrArg Token.join (if_neg (Nat.not_lt.mpr tight))

/-- An operand which binds more weakly is written in parentheses. -/
theorem textInPlace_of_lt {connective : Connective} {operand : Formula}
    (loose : operand.precedence.rank < connective.precedence.rank) :
    textInPlace connective operand = "(" ++ operand.text ++ ")" := by
  rw [textInPlace, enclose, if_pos loose]
  simp [text, Token.join, Token.text, String.append_assoc]

/-- Operands of which none is a chain of the connective, each grouped to the left. -/
structure AreOperands (connective : Connective) (operands : List Formula) : Prop where
  grouped : ∀ operand ∈ operands, operand.isGroupedLeft = true
  other : ∀ operand ∈ operands, operand.precedence ≠ connective.precedence

section
variable {connective : Connective} (groupsLeft : connective.groupsRight = false)
  (neutral first : Formula) (others : List Formula)

include groupsLeft in
/-- A chain is written as its operands with the connective between them. -/
theorem textInPlace_joined :
    textInPlace connective (joined connective neutral (first :: others)) =
      connective.token.text.intercalate ((first :: others).map (textInPlace connective)) := by
  induction others using List.reverseRecOn with
  | nil => exact String.intercalate_singleton.symm
  | append_singleton others last inductionHypothesis =>
    have nonempty : (first :: others).map (textInPlace connective) ≠ [] := List.cons_ne_nil _ _
    have written :
        textInPlace connective (joined connective neutral (first :: (others ++ [last]))) =
          textInPlace connective (joined connective neutral (first :: others)) ++
            connective.token.text ++ textInPlace connective last := by
      rw [joined_concat, textInPlace, enclose_chain, tokens_chain groupsLeft]
      simp [textInPlace, Token.join, String.append_assoc]
    rw [written, inductionHypothesis, ← List.cons_append, List.map_append, List.map_singleton,
      String.intercalate_append_of_ne_nil nonempty (List.cons_ne_nil _ _),
      String.intercalate_singleton]

include groupsLeft in
/-- The nesting of a chain in its place is that of its most nested operand. -/
theorem enclosedNesting_joined_le {bound : Nat} {operands : List Formula}
    (neutralLow : enclosedNesting connective.precedence neutral neutral.nesting ≤ bound)
    (low : ∀ operand ∈ operands,
      enclosedNesting connective.precedence operand operand.nesting ≤ bound) :
    enclosedNesting connective.precedence (joined connective neutral operands)
      (joined connective neutral operands).nesting ≤ bound := by
  cases operands with
  | nil => exact neutralLow
  | cons first others =>
    induction others using List.reverseRecOn with
    | nil => exact low first List.mem_cons_self
    | append_singleton others last inductionHypothesis =>
      rw [← List.cons_append, List.forall_mem_append] at low
      have before := inductionHypothesis low.1
      have after := low.2 last (List.mem_singleton.mpr rfl)
      have free (left right : Formula) (nesting : Nat) :
          enclosedNesting connective.precedence (.binary connective left right) nesting = nesting :=
        if_neg (Nat.lt_irrefl _)
      rw [joined_concat, free, nesting]
      simp only [Connective.leftLeast, Connective.rightLeast, groupsLeft, Bool.false_eq_true,
        if_false, Nat.add_zero]
      exact Nat.max_le.mpr ⟨before, after⟩

/-- Each operand beyond the first one adds a level at most. -/
theorem height_joined_le {bound : Nat} (low : ∀ operand ∈ first :: others, operand.height ≤ bound) :
    (joined connective neutral (first :: others)).height ≤ bound + others.length := by
  induction others using List.reverseRecOn with
  | nil => exact low first List.mem_cons_self
  | append_singleton others last inductionHypothesis =>
    rw [← List.cons_append, List.forall_mem_append] at low
    have before := inductionHypothesis low.1
    have after := low.2 last (List.mem_singleton.mpr rfl)
    rw [joined_concat, height, List.length_append, List.length_singleton]
    omega

/-- Joining operands which are grouped to the left groups the whole to the left. -/
theorem isGroupedLeft_joined {operands : List Formula}
    (neutralGrouped : neutral.isGroupedLeft = true)
    (areOperands : AreOperands connective operands) :
    (joined connective neutral operands).isGroupedLeft = true := by
  obtain ⟨grouped, other⟩ := areOperands
  cases operands with
  | nil => exact neutralGrouped
  | cons first others =>
    induction others using List.reverseRecOn with
    | nil => exact grouped first List.mem_cons_self
    | append_singleton others last inductionHypothesis =>
      rw [← List.cons_append, List.forall_mem_append] at grouped other
      have isLast : last ∈ [last] := List.mem_singleton.mpr rfl
      rw [joined_concat, isGroupedLeft_binary]
      exact ⟨.inr (other.2 last isLast), inductionHypothesis grouped.1 other.1,
        grouped.2 last isLast⟩

/-- The operands are found again at the ends of the chain. -/
theorem chainOperands_joined (operands : AreOperands connective (first :: others)) :
    (joined connective neutral (first :: others)).chainOperands connective = first :: others := by
  obtain ⟨-, other⟩ := operands
  induction others using List.reverseRecOn with
  | nil => exact chainOperands_of_precedence_ne (other first List.mem_cons_self)
  | append_singleton others last inductionHypothesis =>
    rw [← List.cons_append, List.forall_mem_append] at other
    rw [joined_concat, chainOperands, if_pos rfl, inductionHypothesis other.1,
      chainOperands_of_precedence_ne (other.2 last (List.mem_singleton.mpr rfl)), List.cons_append]

end

/-- The formula of a literal is read as that literal. -/
@[simp] theorem literal?_ofLiteral (literal : Literal) :
    (ofLiteral literal).literal? = some literal := by
  obtain ⟨atom, positive⟩ := literal
  cases positive <;> rfl

/-- A literal binds as strongly as a negation at least, and nothing in it is grouped. -/
theorem ofLiteral_shape (literal : Literal) :
    Precedence.not.rank ≤ (ofLiteral literal).precedence.rank ∧
      (ofLiteral literal).isGroupedLeft = true ∧ (ofLiteral literal).nesting ≤ 1 ∧
      (ofLiteral literal).height ≤ 2 := by
  obtain ⟨atom, positive⟩ := literal
  cases positive with
  | true => exact ⟨Nat.le_succ 4, rfl, Nat.zero_le 1, Nat.le_succ 1⟩
  | false => exact ⟨Nat.le_refl 4, rfl, Nat.le_refl 1, Nat.le_refl 2⟩

/-- The formula of a literal is written as the literal is. -/
@[simp] theorem text_ofLiteral (literal : Literal) : (ofLiteral literal).text = literal.text := by
  obtain ⟨atom, positive⟩ := literal
  cases positive with
  | true => simp [ofLiteral, text, tokens, Token.join, Token.text, Literal.text]
  | false => simp [ofLiteral, text, tokens, enclose, precedence, Precedence.rank, Token.join,
      Token.text, Literal.text]

end Formula

namespace Clause

/-- The clause as the disjunction of its literals. -/
def formula (clause : Clause) : Formula :=
  .joined .or .bottom (clause.toList.map .ofLiteral)

/-- The literals of a clause are fit to be operands of a disjunction, as none is a disjunction. -/
theorem areOperands (clause : Clause) :
    Formula.AreOperands .or (clause.toList.map .ofLiteral) := by
  constructor
  · intro operand member
    obtain ⟨literal, _, rfl⟩ := List.mem_map.mp member
    exact (Formula.ofLiteral_shape literal).2.1
  · intro operand member
    obtain ⟨literal, _, rfl⟩ := List.mem_map.mp member
    exact Connective.precedence_ne_of_tight (Formula.ofLiteral_shape literal).1 .or

/-- The formula of a clause is no looser than a disjunction, and is one exactly where there are
several literals. -/
theorem rank_formula (clause : Clause) :
    Precedence.or.rank ≤ clause.formula.precedence.rank ∧
      clause.formula.precedence ≠ .and ∧
      (clause.formula.precedence.rank < Precedence.and.rank ↔ 1 < clause.size) := by
  have size : clause.size = clause.toList.length := rfl
  rw [size, formula]
  cases clause.toList with
  | nil => decide
  | cons first others =>
    cases others with
    | nil =>
      have tight := (Formula.ofLiteral_shape first).1
      have notAnd := Connective.precedence_ne_of_tight tight .and
      have four : Precedence.not.rank = 4 := rfl
      have three : Precedence.and.rank = 3 := rfl
      have two : Precedence.or.rank = 2 := rfl
      refine ⟨?_, notAnd, ?_⟩
      · show Precedence.or.rank ≤ (Formula.ofLiteral first).precedence.rank
        omega
      · show (Formula.ofLiteral first).precedence.rank < Precedence.and.rank ↔ 1 < 1
        omega
    | cons second others =>
      rw [List.map_cons, List.map_cons, Formula.precedence_joined]
      exact ⟨Nat.le_refl _, by decide, by simp [Connective.precedence, Precedence.rank]⟩

/-- A clause is written as the disjunction of its literals, which needs no parentheses. -/
theorem text_formula (clause : Clause) : clause.formula.text = clause.text := by
  have isEmpty : clause.isEmpty = clause.toList.isEmpty := rfl
  rw [← @Formula.textInPlace_of_le .or _ clause.rank_formula.1, text, isEmpty, formula]
  cases clause.toList with
  | nil => rfl
  | cons first others =>
    have each (literal : Literal) :
        Formula.textInPlace .or (.ofLiteral literal) = literal.text := by
      have tight := (Formula.ofLiteral_shape literal).1
      rw [Formula.textInPlace_of_le (Nat.le_trans (by decide) tight), Formula.text_ofLiteral]
    rw [List.map_cons, Formula.textInPlace_joined rfl, ← List.map_cons, List.map_map]
    simp only [Function.comp_def, each]
    rfl

/-- The clause is read off its formula. -/
theorem readClause_formula (clause : Clause) :
    clause.formula.disjuncts.all Formula.isLeaf = true ∧
      clause.formula.readClause = some clause := by
  have same : ofList clause.toList = clause := ext fun literal => by simp
  rw [Formula.readClause, formula]
  cases literals : clause.toList with
  | nil =>
    rw [literals] at same
    exact ⟨rfl, congrArg some same⟩
  | cons first others =>
    have operands := clause.areOperands
    rw [literals] at operands same
    have disjuncts : (Formula.joined .or .bottom ((first :: others).map .ofLiteral)).disjuncts =
        (first :: others).map .ofLiteral := by
      rw [Formula.disjuncts_eq, List.map_cons]
      exact Formula.chainOperands_joined _ _ _ operands
    have noTop : ¬ ((first :: others).map Formula.ofLiteral).contains .top = true := by
      rw [List.contains_iff_mem, List.mem_map]
      rintro ⟨literal, _, isTop⟩
      have isLiteral := Formula.literal?_ofLiteral literal
      rw [isTop] at isLiteral
      cases isLiteral
    rw [disjuncts, if_neg noTop]
    constructor
    · simp [Formula.isLeaf]
    · simp [List.filterMap_map, same]

/-- The one nesting in the formula of a clause is that of a negated atom. -/
theorem nesting_formula_le (clause : Clause) : clause.formula.nesting ≤ 1 := by
  have free : Formula.enclosedNesting .or clause.formula clause.formula.nesting =
      clause.formula.nesting := if_neg (Nat.not_lt.mpr clause.rank_formula.1)
  rw [← free]
  apply @Formula.enclosedNesting_joined_le .or rfl _ _ _ (Nat.zero_le 1)
  intro operand member
  obtain ⟨literal, _, rfl⟩ := List.mem_map.mp member
  obtain ⟨tight, _, nesting, _⟩ := Formula.ofLiteral_shape literal
  rw [Formula.enclosedNesting, if_neg (Nat.not_lt.mpr (Nat.le_trans (by decide) tight))]
  exact nesting

/-- The formula of a clause is higher than the number of its literals by one at most, as a negation
may stand at its lower end. -/
theorem height_formula_le (clause : Clause) : clause.formula.height ≤ clause.size + 1 := by
  have size : clause.size = clause.toList.length := rfl
  rw [size, formula]
  cases clause.toList with
  | nil => exact Nat.le_refl 1
  | cons first others =>
    have low : ∀ operand ∈ (first :: others).map Formula.ofLiteral, operand.height ≤ 2 := by
      intro operand member
      obtain ⟨literal, _, rfl⟩ := List.mem_map.mp member
      exact (Formula.ofLiteral_shape literal).2.2.2
    have height := @Formula.height_joined_le .or .bottom _ _ _ low
    rw [List.length_map] at height
    rw [List.length_cons]
    exact Nat.le_trans height (by omega)

/-- The formula of a clause is grouped as a reader groups its text. -/
theorem isGroupedLeft_formula (clause : Clause) : clause.formula.isGroupedLeft = true :=
  Formula.isGroupedLeft_joined _ rfl clause.areOperands

end Clause

namespace ClauseSet

/-- The set as the conjunction of its clauses. -/
def formula (set : ClauseSet) : Formula := .joined .and .top (set.clauses.map Clause.formula)

/-- The formulas of clauses are fit to be operands of a conjunction, as none is a conjunction. -/
theorem areOperands (set : ClauseSet) :
    Formula.AreOperands .and (set.clauses.map Clause.formula) := by
  constructor
  · intro operand member
    obtain ⟨clause, _, rfl⟩ := List.mem_map.mp member
    exact clause.isGroupedLeft_formula
  · intro operand member
    obtain ⟨clause, _, rfl⟩ := List.mem_map.mp member
    exact clause.rank_formula.2.1

/-- A set of clauses is written as its formula is printed. -/
theorem text_formula (set : ClauseSet) : set.formula.text = set.text := by
  obtain ⟨clauses⟩ := set
  have each (clause : Clause) : Formula.textInPlace .and clause.formula =
      if 1 < clause.size then "(" ++ clause.text ++ ")" else clause.text := by
    rw [← clause.text_formula]
    split
    case isTrue several => exact Formula.textInPlace_of_lt (clause.rank_formula.2.2.mpr several)
    case isFalse single =>
      rw [← clause.rank_formula.2.2, Nat.not_lt] at single
      exact Formula.textInPlace_of_le single
  cases clauses with
  | nil => rfl
  | cons first others =>
    cases others with
    | nil =>
      have alone : formula ⟨[first]⟩ = first.formula := rfl
      rw [alone, first.text_formula]
      simp [text, size, isEmpty]
    | cons second others =>
      have tight : Precedence.and.rank ≤ (formula ⟨first :: second :: others⟩).precedence.rank := by
        rw [formula, List.map_cons, List.map_cons, Formula.precedence_joined]
        exact Nat.le_refl _
      rw [← @Formula.textInPlace_of_le .and _ tight, formula, List.map_cons,
        Formula.textInPlace_joined rfl, ← List.map_cons, List.map_map]
      simp only [Function.comp_def, each]
      simp [text, size, isEmpty, Token.text, Connective.token]

/-- The clauses are read off the formula, each once and in order. -/
theorem ofFormula_formula (set : ClauseSet) : ofFormula set.formula = .ok set := by
  obtain ⟨clauses⟩ := set
  cases clauses with
  | nil => rfl
  | cons first others =>
    have conjuncts : (formula ⟨first :: others⟩).conjuncts =
        (first :: others).map Clause.formula := by
      rw [Formula.conjuncts_eq, formula, List.map_cons]
      exact Formula.chainOperands_joined _ _ _ (areOperands ⟨first :: others⟩)
    have readable : (formula ⟨first :: others⟩).isReadable = true := by
      rw [Formula.isReadable, conjuncts, List.all_map, List.all_eq_true]
      intro clause _
      exact clause.readClause_formula.1
    have read (clause : Clause) : clause.formula.readClause = some clause :=
      clause.readClause_formula.2
    rw [ofFormula_eq, if_pos readable, conjuncts, List.filterMap_map]
    simp [read]

/-- The formula of some clauses nests disjunctions in parentheses, and negations within them. -/
theorem nesting_formula_le (set : ClauseSet) : set.formula.nesting ≤ 2 := by
  have inPlace : Formula.enclosedNesting .and set.formula set.formula.nesting ≤ 2 := by
    apply @Formula.enclosedNesting_joined_le .and rfl _ _ _ (Nat.zero_le 2)
    intro operand member
    obtain ⟨clause, _, rfl⟩ := List.mem_map.mp member
    exact Nat.le_trans (Formula.enclosedNesting_le _ _ _)
      (Nat.succ_le_succ clause.nesting_formula_le)
  refine Nat.le_trans ?_ inPlace
  unfold Formula.enclosedNesting
  split
  · exact Nat.le_succ _
  · exact Nat.le_refl _

/-- The formula of some clauses is grouped as a reader groups its text. -/
theorem isGroupedLeft_formula (set : ClauseSet) : set.formula.isGroupedLeft = true :=
  Formula.isGroupedLeft_joined _ rfl set.areOperands

/-- The width of a set is that of its widest clause, and so none is wider. -/
theorem size_le_width {set : ClauseSet} {clause : Clause} (member : clause ∈ set.clauses) :
    clause.size ≤ set.width := by
  rw [width, ← List.foldr_eq_foldl]
  exact List.le_max_of_le' 0 (List.mem_map_of_mem member) (Nat.le_refl _)

/-- Clauses which are few and short enough make up a formula which is not too deep. -/
theorem height_formula_le {set : ClauseSet} {limit : Nat} (positive : 1 ≤ limit)
    (small : set.size + set.width ≤ limit) : set.formula.height ≤ limit := by
  obtain ⟨clauses⟩ := set
  cases clauses with
  | nil => exact positive
  | cons first others =>
    have low : ∀ operand ∈ (first :: others).map Clause.formula,
        operand.height ≤ width ⟨first :: others⟩ + 1 := by
      intro operand member
      obtain ⟨clause, inside, rfl⟩ := List.mem_map.mp member
      exact Nat.le_trans clause.height_formula_le (Nat.succ_le_succ (size_le_width inside))
    have height := @Formula.height_joined_le .and .top _ _ _ low
    rw [List.length_map] at height
    rw [size, List.length_cons] at small
    exact Nat.le_trans height (by omega)

/-- The text of a set of clauses is read as the set, unless its formula is too deep. -/
theorem parse_text (set : ClauseSet) :
    parse set.text =
      if set.formula.height ≤ depthLimit then .ok set else .error (.parse .tooDeep) := by
  have room : set.formula.nesting ≤ depthLimit :=
    Nat.le_trans set.nesting_formula_le (by decide)
  have grouped := Formula.regrouped_of_isGroupedLeft set.isGroupedLeft_formula
  rw [parse, ← set.text_formula, Formula.parse_text, grouped, Formula.depth_eq_height]
  simp only [room, true_and]
  by_cases shallow : set.formula.height ≤ depthLimit
  · rw [if_pos shallow, if_pos shallow]
    exact set.ofFormula_formula
  · rw [if_neg shallow, if_neg shallow]

/-- The text of a set of clauses is read as the set, with the same clauses in the same order, or
refused as too deep. It is not refused if the number of the clauses and the size of the largest
one are together within the limit. -/
theorem parse_text_readable (set : ClauseSet) :
    (parse set.text = .error (.parse .tooDeep) ∨ parse set.text = .ok set) ∧
      (set.size + set.width ≤ 512 → parse set.text = .ok set) := by
  have read := set.parse_text
  constructor
  · split at read
    · exact .inr read
    · exact .inl read
  · intro small
    have shallow : set.formula.height ≤ depthLimit := height_formula_le (by decide) small
    rwa [if_pos shallow] at read

/-- A tautology, the clause without literals, and the tautology again. -/
def mixedSet : ClauseSet :=
  let tautology : Clause := .ofList [⟨⟨"S", by decide⟩, true⟩, ⟨⟨"S", by decide⟩, false⟩]
  ⟨[tautology, .empty, tautology]⟩

/-- Nothing is dropped of clauses which mean nothing, and nothing is merged. -/
theorem parse_text_readable_mixed :
    mixedSet.text = "(S∨¬S)∧⊥∧(S∨¬S)" ∧ mixedSet.size + mixedSet.width ≤ 512 ∧
      parse mixedSet.text = .ok mixedSet :=
  ⟨by decide, by decide, (parse_text_readable mixedSet).2 (by decide)⟩

end ClauseSet
end BeliefRevision
