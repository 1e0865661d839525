import BeliefRevision.Connective
import BeliefRevision.Literal
import BeliefRevision.SortedSet

/-!
# Formulas

Formulas of propositional logic as trees over atoms. The depth of a formula is
found with a list of the subformulas still to visit, so that no call is nested
however deep the formula is; the height says the same by recursion on the tree.
Truth is relative to any assignment of truth values to all atoms.
-/

namespace BeliefRevision

/-- A formula of propositional logic. -/
inductive Formula where
  | top
  | bottom
  | atom (leaf : Atom)
  | not (operand : Formula)
  | binary (connective : Connective) (left right : Formula)
deriving DecidableEq

namespace Formula

/-- The conjunction of two formulas. -/
@[match_pattern] abbrev and (left right : Formula) : Formula := .binary .and left right

/-- The disjunction of two formulas. -/
@[match_pattern] abbrev or (left right : Formula) : Formula := .binary .or left right

/-- The implication from the first formula to the second. -/
@[match_pattern] abbrev implies (left right : Formula) : Formula := .binary .implies left right

/-- The biconditional of two formulas. -/
@[match_pattern] abbrev iff (left right : Formula) : Formula := .binary .iff left right

/-- How strongly the root binds. -/
def precedence : Formula → Precedence
  | .top => .atomic
  | .bottom => .atomic
  | .atom _ => .atomic
  | .not _ => .not
  | .binary connective _ _ => connective.precedence

/-- The formula of a literal. -/
def ofLiteral (literal : Literal) : Formula :=
  if literal.positive then .atom literal.atom else .not (.atom literal.atom)

/-- The literal, if the formula is an atom or the negation of an atom. -/
def literal? : Formula → Option Literal
  | .atom leaf => some ⟨leaf, true⟩
  | .not (.atom leaf) => some ⟨leaf, false⟩
  | _ => none

/-- The number of nodes. -/
def size : Formula → Nat
  | .top => 1
  | .bottom => 1
  | .atom _ => 1
  | .not operand => operand.size + 1
  | .binary _ left right => left.size + right.size + 1

/-- The number of nodes on the longest path from the root. -/
def height : Formula → Nat
  | .top => 1
  | .bottom => 1
  | .atom _ => 1
  | .not operand => operand.height + 1
  | .binary _ left right => max left.height right.height + 1

/-- The operands of the root. -/
def operands : Formula → List Formula
  | .top => []
  | .bottom => []
  | .atom _ => []
  | .not operand => [operand]
  | .binary _ left right => [left, right]

/-- The number of nodes of the formulas together. -/
def totalSize : List Formula → Nat
  | [] => 0
  | formula :: formulas => formula.size + totalSize formulas

/-- Two lists of formulas have as many nodes as both have together. -/
theorem totalSize_append (first second : List Formula) :
    totalSize (first ++ second) = totalSize first + totalSize second := by
  induction first with
  | nil => exact (Nat.zero_add _).symm
  | cons formula formulas inductionHypothesis =>
    rw [List.cons_append, totalSize, inductionHypothesis, totalSize, Nat.add_assoc]

/-- The operands of a formula together are smaller than the formula. -/
theorem totalSize_operands_lt (formula : Formula) : totalSize formula.operands < formula.size :=
  match formula with
  | .top => Nat.zero_lt_one
  | .bottom => Nat.zero_lt_one
  | .atom _ => Nat.zero_lt_one
  | .not operand => Nat.lt_succ_self operand.size
  | .binary _ left right => Nat.lt_succ_self (left.size + right.size)

/-- The deepest level met when the pending formulas, each with the level at which
it stands, are visited with all of their subformulas. -/
def deepest (seen : Nat) : List (Formula × Nat) → Nat
  | [] => seen
  | (formula, level) :: pending =>
    deepest (max seen level) (formula.operands.map (·, level + 1) ++ pending)
termination_by pending => totalSize (pending.map Prod.fst)
decreasing_by
  have formulas : (formula.operands.map (·, level + 1)).map Prod.fst = formula.operands := by
    rw [List.map_map]
    exact List.map_id _
  rw [List.map_append, totalSize_append, formulas, List.map_cons, totalSize]
  exact Nat.add_lt_add_right (totalSize_operands_lt formula) _

/-- The number of nodes on the longest path from the root, found without nested
calls. -/
def depth (formula : Formula) : Nat := deepest 0 [(formula, 1)]

/-- The atoms at the leaves, from left to right, with repeats. -/
def occurrences : Formula → List Atom
  | .top => []
  | .bottom => []
  | .atom leaf => [leaf]
  | .not operand => operand.occurrences
  | .binary _ left right => left.occurrences ++ right.occurrences

/-- The atoms which occur in the formula. -/
def atoms (formula : Formula) : SortedSet Atom := .ofList formula.occurrences

/-- The truth value of the formula when each atom has the given one. -/
def eval (truth : Atom → Bool) : Formula → Bool
  | .top => true
  | .bottom => false
  | .atom leaf => truth leaf
  | .not operand => !operand.eval truth
  | .binary connective left right => connective.apply (left.eval truth) (right.eval truth)

/-- Even a constant or an atom has a height, as it is counted itself. -/
theorem height_pos (formula : Formula) : 0 < formula.height := by
  cases formula <;> simp [height]

/-- The truth of a formula depends on the atoms which occur in it alone. -/
theorem eval_congr {first second : Atom → Bool} (formula : Formula)
    (same : ∀ leaf ∈ formula.occurrences, first leaf = second leaf) :
    formula.eval first = formula.eval second := by
  induction formula with
  | top | bottom => rfl
  | atom leaf => exact same leaf (List.mem_singleton.2 rfl)
  | not operand inductionHypothesis => simp only [eval, inductionHypothesis same]
  | binary connective left right leftHypothesis rightHypothesis =>
    have ofLeft := leftHypothesis fun leaf member => same leaf (List.mem_append_left _ member)
    have ofRight := rightHypothesis fun leaf member => same leaf (List.mem_append_right _ member)
    simp only [eval, ofLeft, ofRight]

end Formula
end BeliefRevision
