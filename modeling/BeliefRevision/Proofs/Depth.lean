import BeliefRevision.Formula.Basic
import Mathlib.Data.List.Perm.Basic

/-!
# The depth of a formula

The depth is found by visiting the subformulas one after another. A visit takes the formula
which comes next off those still to visit, notes the level at which it stands, and puts its
operands in front, one level deeper. The order in which it puts them there is left open here, as
nothing depends on it.

After each visit the formulas still to visit have one node less. So the visits end, and there are
as many as the formula has nodes. What will be the deepest level in the end is told before each
visit by the deepest one so far and the heights of the formulas still to visit, and no visit
changes it.
-/

namespace BeliefRevision.Formula

/-- A formula has one node more than its operands together. -/
theorem totalSize_operands (formula : Formula) :
    totalSize formula.operands + 1 = formula.size := by
  cases formula <;> simp [operands, totalSize, size]

/-- The order of the formulas on the stack does not matter for what is still to be visited. -/
theorem totalSize_perm {first second : List Formula} (permuted : first.Perm second) :
    totalSize first = totalSize second := by
  induction permuted with
  | nil => rfl
  | cons formula _ inductionHypothesis => rw [totalSize, totalSize, inductionHypothesis]
  | swap formula other formulas => exact Nat.add_left_comm _ _ _
  | trans _ _ firstHypothesis secondHypothesis => exact firstHypothesis.trans secondHypothesis

/-- Where the visits stand: the deepest level so far, and the formulas still to visit, each with
the level at which it stands. -/
structure Survey where
  seen : Nat
  pending : List (Formula × Nat)

namespace Survey

/-- A visit to the formula which comes next. -/
inductive Visit : Survey → Survey → Prop where
  | first {seen level : Nat} {formula : Formula} {ahead pending : List (Formula × Nat)} :
      ahead.Perm (formula.operands.map (·, level + 1)) →
      Visit ⟨seen, (formula, level) :: pending⟩ ⟨max seen level, ahead ++ pending⟩

/-- So many visits, one after another. -/
inductive Visits : Survey → Nat → Survey → Prop where
  | none {survey : Survey} : Visits survey 0 survey
  | further {survey next last : Survey} {count : Nat} :
      Visit survey next → Visits next count last → Visits survey (count + 1) last

/-- The number of nodes of the formulas still to visit. -/
def nodes (survey : Survey) : Nat := totalSize (survey.pending.map Prod.fst)

/-- The deepest level of a formula which stands at some level. -/
def lowest (entry : Formula × Nat) : Nat := entry.2 + entry.1.height - 1

/-- The deepest level which will be seen in the end. -/
def reach (survey : Survey) : Nat := (survey.pending.map lowest).foldl max survey.seen

variable {survey next last : Survey} {count : Nat}

/-- A visit leaves one node less. -/
theorem Visit.nodes_eq (visit : Visit survey next) : survey.nodes = next.nodes + 1 := by
  obtain ⟨permuted⟩ := visit
  rename_i formula ahead pending
  have sameFormulas := permuted.map Prod.fst
  rw [List.map_map, Function.comp_def, List.map_id'] at sameFormulas
  have sizes := totalSize_perm sameFormulas
  have root := formula.totalSize_operands
  simp only [nodes, List.map_append, totalSize_append, List.map_cons, totalSize]
  omega

/-- A formula reaches down as far as its root and its operands do. -/
theorem foldl_lowest_operands (formula : Formula) (seen level : Nat) :
    ((formula.operands.map (·, level + 1)).map lowest).foldl max (max seen level) =
      max seen (lowest (formula, level)) := by
  cases formula with
  | top | bottom | atom _ => simp [operands, lowest, height]
  | not operand =>
    have positive := operand.height_pos
    simp only [operands, lowest, height, List.map_cons, List.map_nil, List.foldl_cons,
      List.foldl_nil]
    omega
  | binary connective left right =>
    have leftPositive := left.height_pos
    have rightPositive := right.height_pos
    simp only [operands, lowest, height, List.map_cons, List.map_nil, List.foldl_cons,
      List.foldl_nil]
    omega

/-- A visit does not change what will be seen in the end. -/
theorem Visit.reach_eq (visit : Visit survey next) : next.reach = survey.reach := by
  obtain ⟨permuted⟩ := visit
  have levels := (permuted.map lowest).foldl_eq (f := max)
  simp only [reach, List.map_append, List.foldl_append, levels, foldl_lowest_operands,
    List.map_cons, List.foldl_cons]

/-- There is a visit as long as there are formulas to visit. -/
theorem exists_visit (more : survey.pending ≠ []) : ∃ next, Visit survey next := by
  obtain ⟨seen, _ | ⟨⟨formula, level⟩, pending⟩⟩ := survey
  · exact absurd rfl more
  · exact ⟨_, .first (List.Perm.refl _)⟩

/-- Each visit takes one node off the stack. So after as many visits that many nodes fewer are left.
-/
theorem Visits.nodes_eq (visits : Visits survey count last) :
    survey.nodes = last.nodes + count := by
  induction visits with
  | none => rfl
  | further visit _ inductionHypothesis =>
    rw [visit.nodes_eq, inductionHypothesis, Nat.add_assoc]

/-- A whole run keeps the greatest depth which the survey will come to. -/
theorem Visits.reach_eq (visits : Visits survey count last) : last.reach = survey.reach := by
  induction visits with
  | none => rfl
  | further visit _ inductionHypothesis => rw [inductionHypothesis, visit.reach_eq]

/-- The formulas left have no nodes only where none is left. -/
theorem nodes_eq_zero_iff : survey.nodes = 0 ↔ survey.pending = [] := by
  obtain ⟨seen, _ | ⟨⟨formula, level⟩, pending⟩⟩ := survey
  · simp [nodes, totalSize]
  · cases formula <;> simp [nodes, totalSize, size]

end Survey

/-- The search for the deepest level makes these visits until no formula is left. -/
theorem deepest_visits (seen : Nat) (pending : List (Formula × Nat)) :
    Survey.Visits ⟨seen, pending⟩ (Survey.nodes ⟨seen, pending⟩) ⟨deepest seen pending, []⟩ := by
  fun_induction deepest seen pending with
  | case1 seen => exact .none
  | case2 seen formula level pending inductionHypothesis =>
    have visit : Survey.Visit ⟨seen, (formula, level) :: pending⟩ _ := .first (List.Perm.refl _)
    rw [visit.nodes_eq]
    exact .further visit inductionHypothesis

/-- The depth found without nested calls is the height of the tree. -/
theorem depth_eq_height (formula : Formula) : formula.depth = formula.height := by
  have found := (deepest_visits 0 [(formula, 1)]).reach_eq
  simpa [Survey.reach, Survey.lowest, depth] using found

/-- The visits which find the depth of a formula end after as many as it has nodes, in whatever
order they take the operands of a formula, and what they find is the height of the tree. -/
theorem depth_exact (formula : Formula) :
    formula.depth = formula.height ∧
    Survey.Visits ⟨0, [(formula, 1)]⟩ formula.size ⟨formula.depth, []⟩ ∧
    ∀ count reached, Survey.Visits ⟨0, [(formula, 1)]⟩ count reached →
      count ≤ formula.size ∧
      (reached.pending = [] ↔ count = formula.size) ∧
      (reached.pending = [] → reached.seen = formula.height) ∧
      (reached.pending ≠ [] → ∃ next, Survey.Visit reached next) := by
  have nodes : Survey.nodes ⟨0, [(formula, 1)]⟩ = formula.size := Nat.add_zero _
  refine ⟨depth_eq_height formula, ?_, ?_⟩
  · exact nodes ▸ deepest_visits 0 [(formula, 1)]
  · intro count reached visits
    have left := visits.nodes_eq
    have level := visits.reach_eq
    rw [nodes] at left
    refine ⟨by omega, ?_, ?_, Survey.exists_visit⟩
    · rw [← Survey.nodes_eq_zero_iff]
      omega
    · intro ended
      simpa [Survey.reach, Survey.lowest, ended] using level

end BeliefRevision.Formula
