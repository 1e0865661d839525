import BeliefRevision.Clause.ClauseSet
import Mathlib.Data.List.Forall2
import Mathlib.Data.List.Nodup

/-!
# Resolvents

What the resolvents of two clauses are, that they follow from the two clauses, and
that it does not matter which clause is taken first. The latter is what allows a
pair to be resolved in one direction only. The resolvents of both directions come
in the order of the atoms that are resolved on. An atom is resolved on twice only
if both clauses have both of its literals, and then the two resolvents are equal.

A clause with a literal and its negation resolves with itself to itself. So a pair
of equal clauses has nothing to add to a list which holds them.
-/

namespace BeliefRevision.Clause

instance : Std.LawfulEqOrd Clause where
  eq_of_compare {first second} equal := by
    have lists : first.toList = second.toList := Std.LawfulEqCmp.eq_of_compare equal
    obtain ⟨⟨firstElements, _⟩⟩ := first
    obtain ⟨⟨secondElements, _⟩⟩ := second
    have elements : firstElements = secondElements := lists
    subst elements
    rfl

/-- A clause is empty exactly when no literal belongs to it. -/
theorem isEmpty_iff {clause : Clause} :
    clause.isEmpty = true ↔ ∀ literal, literal ∉ clause :=
  List.isEmpty_iff.trans List.eq_nil_iff_forall_not_mem

/-- A clause is false exactly when all its literals are. -/
theorem eval_eq_false_iff {truth : Atom → Bool} {clause : Clause} :
    clause.eval truth = false ↔ ∀ literal ∈ clause, literal.eval truth = false := by
  simp [eval]

/-- The empty clause is false under every assignment. -/
theorem eval_of_isEmpty {truth : Atom → Bool} {clause : Clause} (isEmpty : clause.isEmpty = true) :
    clause.eval truth = false :=
  eval_eq_false_iff.mpr fun literal member => absurd member (isEmpty_iff.mp isEmpty literal)

/-- The test looks at the positive literals only, as one of two complementary
literals is positive. -/
theorem isTautology_iff {clause : Clause} :
    clause.isTautology = true ↔ ∃ literal ∈ clause, literal.negate ∈ clause := by
  simp only [isTautology, List.any_eq_true, mem_toList, Bool.and_eq_true, contains_iff]
  constructor
  · rintro ⟨literal, member, _, complement⟩
    exact ⟨literal, member, complement⟩
  · rintro ⟨literal, member, complement⟩
    cases sign : literal.positive with
    | true => exact ⟨literal, member, sign, complement⟩
    | false =>
      refine ⟨literal.negate, complement, ?_, ?_⟩
      · simp [Literal.negate, sign]
      · rwa [Literal.negate_negate]

/-- A tautology is true under every assignment. -/
theorem eval_of_isTautology (truth : Atom → Bool) {clause : Clause}
    (tautology : clause.isTautology = true) : clause.eval truth = true := by
  obtain ⟨literal, member, complement⟩ := isTautology_iff.mp tautology
  cases value : literal.eval truth with
  | true => exact eval_eq_true_iff.mpr ⟨literal, member, value⟩
  | false => exact eval_eq_true_iff.mpr ⟨literal.negate, complement, by simp [value]⟩

/-- All literals of the two clauses except the given one in the first and its
negation in the second. -/
def resolvent (left right : Clause) (literal : Literal) : Clause :=
  (left.erase literal).union (right.erase literal.negate)

/-- A resolvent has the literals of both clauses but for the two which are resolved on. One of these
may still come from the other clause. -/
@[simp] theorem mem_resolvent {left right : Clause} {literal other : Literal} :
    other ∈ left.resolvent right literal ↔
      other ∈ left ∧ other ≠ literal ∨ other ∈ right ∧ other ≠ literal.negate := by
  simp [resolvent]

/-- The literals of the first clause whose negations are in the second, in ascending order. -/
def pivots (left right : Clause) : List Literal :=
  left.toList.filter fun literal => literal.negate ∈ right

/-- Two clauses are resolved on the literals of the first whose negations are in the second. -/
@[simp] theorem mem_pivots {left right : Clause} {literal : Literal} :
    literal ∈ left.pivots right ↔ literal ∈ left ∧ literal.negate ∈ right := by
  simp [pivots]

/-- From the other side they are resolved on the negations of these. -/
theorem negate_mem_pivots {left right : Clause} {literal : Literal} :
    literal.negate ∈ left.pivots right ↔ literal ∈ right.pivots left := by
  rw [mem_pivots, mem_pivots, Literal.negate_negate, and_comm]

/-- There is one resolvent for each of these literals, in their order. -/
theorem resolvents_eq_map (left right : Clause) :
    left.resolvents right = (left.pivots right).map (left.resolvent right) := by
  rw [resolvents, pivots, ← List.filterMap_eq_map, List.filterMap_filter]
  refine List.filterMap_congr fun literal member => ?_
  have inLeft : left.contains literal = true := contains_iff.mpr member
  simp [resolveOn, resolvent, inLeft]

/-- The resolvents are those on the literals of the first clause whose negations
are in the second. -/
theorem mem_resolvents {left right derived : Clause} :
    derived ∈ left.resolvents right ↔
      ∃ literal ∈ left, literal.negate ∈ right ∧ left.resolvent right literal = derived := by
  simp only [resolvents_eq_map, List.mem_map, mem_pivots, and_assoc]

/-- Resolving on a literal from one side is resolving on its negation from the
other side. -/
theorem resolvent_negate (left right : Clause) (literal : Literal) :
    right.resolvent left literal.negate = left.resolvent right literal :=
  ext fun other => by simp [or_comm]

/-- The literals which are resolved on keep the order of the clause. -/
theorem pivots_ascending (left right : Clause) :
    (left.pivots right).Pairwise fun lower upper => compare lower upper = .lt :=
  left.literals.ascending.filter _

/-- No literal is resolved on twice. -/
theorem nodup_pivots (left right : Clause) : (left.pivots right).Nodup :=
  left.literals.nodup.filter _

/-- Taken from the other side, the literals are the negations of these. -/
theorem perm_pivots (left right : Clause) :
    ((left.pivots right).map Literal.negate).Perm (right.pivots left) := by
  have injective : Function.Injective Literal.negate :=
    Function.LeftInverse.injective Literal.negate_negate
  apply (List.perm_ext_iff_of_nodup ((nodup_pivots left right).map injective)
    (nodup_pivots right left)).mpr
  intro literal
  rw [List.mem_map]
  constructor
  · rintro ⟨pivot, member, rfl⟩
    exact negate_mem_pivots.mpr member
  · intro member
    exact ⟨literal.negate, negate_mem_pivots.mpr member, literal.negate_negate⟩

/-- As literals are in the order of their atoms, both sides come to the same atoms in turn. -/
theorem map_atom_pivots (left right : Clause) :
    (left.pivots right).map Literal.atom = (right.pivots left).map Literal.atom := by
  have ascending (clause other : Clause) : ((clause.pivots other).map Literal.atom).Pairwise
      fun first second => (compare first second).isLE = true := by
    refine List.pairwise_map.mpr ((pivots_ascending clause other).imp ?_)
    intro first second before
    have parts : (compare first.atom second.atom).then
        (compare (!first.positive) (!second.positive)) = .lt := before
    cases atoms : compare first.atom second.atom with
    | lt | eq => rfl
    | gt => rw [atoms] at parts; cases parts
  have permuted := (perm_pivots left right).map Literal.atom
  rw [List.map_map] at permuted
  apply List.Perm.eq_of_pairwise _ (ascending left right) (ascending right left) permuted
  intro first second _ _ notAfter notBefore
  exact Std.LawfulEqCmp.eq_of_compare (Std.OrientedCmp.isLE_antisymm notAfter notBefore)

/-- Where both clauses have both literals of an atom, nothing is left out of the resolvents on
it, and so these are the same. -/
theorem resolvent_eq_of_atom_eq {left right : Clause} {literal other : Literal}
    (member : literal ∈ left.pivots right) (otherMember : other ∈ left.pivots right)
    (sameAtom : literal.atom = other.atom) :
    left.resolvent right literal = left.resolvent right other := by
  by_cases same : literal = other
  · rw [same]
  · have opposite : literal.negate = other := by
      obtain ⟨atom, positive⟩ := literal
      obtain ⟨otherAtom, otherPositive⟩ := other
      cases sameAtom
      cases positive <;> cases otherPositive <;> simp_all [Literal.negate]
    subst opposite
    rw [mem_pivots] at member otherMember
    rw [Literal.negate_negate] at otherMember
    refine ext fun present => ?_
    simp only [mem_resolvent, Literal.negate_negate]
    have different := literal.negate_ne
    grind

/-- It does not matter which clause is taken first: the resolvents are the same, and come in the
same order. -/
theorem resolvents_comm (left right : Clause) : left.resolvents right = right.resolvents left := by
  have atoms := map_atom_pivots left right
  have sameLength : (left.pivots right).length = (right.pivots left).length := by
    simpa using congrArg List.length atoms
  rw [resolvents_eq_map, resolvents_eq_map]
  apply List.ext_getElem
  · rw [List.length_map, List.length_map, sameLength]
  · intro place inLeft inRight
    rw [List.length_map] at inLeft inRight
    rw [List.getElem_map, List.getElem_map, ← resolvent_negate]
    have sameAtom : (left.pivots right)[place].atom = (right.pivots left)[place].atom := by
      have here := List.getElem_of_eq atoms (by simpa using inLeft)
      rwa [List.getElem_map, List.getElem_map] at here
    apply resolvent_eq_of_atom_eq
    · exact negate_mem_pivots.mpr (List.getElem_mem inLeft)
    · exact List.getElem_mem inRight
    · exact sameAtom

/-- Both orders of two clauses give the same resolvents. -/
theorem mem_resolvents_comm {left right derived : Clause} :
    derived ∈ left.resolvents right ↔ derived ∈ right.resolvents left := by
  rw [resolvents_comm]

/-- A clause resolves with itself to itself alone. -/
theorem eq_of_mem_resolvents_self {clause derived : Clause}
    (member : derived ∈ clause.resolvents clause) : derived = clause := by
  obtain ⟨literal, _, _, rfl⟩ := mem_resolvents.mp member
  refine ext fun other => ?_
  rw [mem_resolvent]
  constructor
  · rintro (⟨present, _⟩ | ⟨present, _⟩) <;> exact present
  · intro present
    by_cases same : other = literal
    · exact Or.inr ⟨present, fun equal => literal.negate_ne (equal ▸ same)⟩
    · exact Or.inl ⟨present, same⟩

/-- No resolvent holds a literal which was in neither clause. -/
theorem mem_of_mem_resolvents {left right derived : Clause} {literal : Literal}
    (member : derived ∈ left.resolvents right) (inside : literal ∈ derived) :
    literal ∈ left ∨ literal ∈ right := by
  obtain ⟨pivot, _, _, rfl⟩ := mem_resolvents.mp member
  exact (mem_resolvent.mp inside).imp And.left And.left

/-- Resolution is sound. The literal of the pair which is false leaves its clause
with another literal that is true, and that one is in the resolvent. -/
theorem eval_of_mem_resolvents {truth : Atom → Bool} {left right derived : Clause}
    (member : derived ∈ left.resolvents right) (leftTrue : left.eval truth = true)
    (rightTrue : right.eval truth = true) : derived.eval truth = true := by
  obtain ⟨pivot, _, _, rfl⟩ := mem_resolvents.mp member
  obtain ⟨first, inLeft, firstTrue⟩ := eval_eq_true_iff.mp leftTrue
  obtain ⟨second, inRight, secondTrue⟩ := eval_eq_true_iff.mp rightTrue
  rw [eval_eq_true_iff]
  by_cases firstPivot : first = pivot
  · have secondOther : second ≠ pivot.negate := by
      rintro rfl
      subst firstPivot
      simp [firstTrue] at secondTrue
    exact ⟨second, mem_resolvent.mpr (Or.inr ⟨inRight, secondOther⟩), secondTrue⟩
  · exact ⟨first, mem_resolvent.mpr (Or.inl ⟨inLeft, firstPivot⟩), firstTrue⟩

/-- Resolving two clauses, tautologies or not, gives one clause for each literal of the first whose
negation is in the second: all literals of the two except this one in the first and its negation
in the second. The other order of the two clauses gives the same list of clauses. They are true
where both clauses are. -/
theorem resolvents_exact (left right : Clause) :
    left.resolvents right = right.resolvents left ∧
    List.Forall₂
      (fun literal derived => ∀ other, other ∈ derived ↔
        other ∈ left ∧ other ≠ literal ∨ other ∈ right ∧ other ≠ literal.negate)
      (left.pivots right) (left.resolvents right) ∧
    ∀ truth, left.eval truth = true → right.eval truth = true →
      ∀ derived ∈ left.resolvents right, derived.eval truth = true := by
  refine ⟨resolvents_comm left right, ?_, ?_⟩
  · rw [resolvents_eq_map, List.forall₂_map_right_iff, List.forall₂_same]
    exact fun literal _ other => mem_resolvent
  · intro truth leftTrue rightTrue derived member
    exact eval_of_mem_resolvents member leftTrue rightTrue

end BeliefRevision.Clause
