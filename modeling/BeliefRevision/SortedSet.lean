/-!
# Finite sets as strictly ascending lists

A set is stored as the list of its elements in strictly ascending order, so each
set has one representation and equal sets are equal values. The order comes from
the element type. Insertion keeps the order by walking to the first element that
is not below the new one.
-/

namespace BeliefRevision

universe u
variable {α : Type u} [Ord α]

/-- Elements in strictly ascending order. -/
structure SortedSet (α : Type u) [Ord α] where
  elements : List α
  ascending : elements.Pairwise (fun lower upper => compare lower upper = .lt)

namespace SortedSet

instance [DecidableEq α] : DecidableEq (SortedSet α) := fun left right =>
  decidable_of_iff (left.elements = right.elements) (by cases left; cases right; simp)

instance [Hashable α] : Hashable (SortedSet α) where
  hash set := hash set.elements

instance : Membership α (SortedSet α) where
  mem set element := element ∈ set.elements

instance [DecidableEq α] (element : α) (set : SortedSet α) : Decidable (element ∈ set) :=
  inferInstanceAs (Decidable (element ∈ set.elements))

/-- The set without elements. -/
def empty : SortedSet α := ⟨[], .nil⟩

/-- Whether there is no element. -/
def isEmpty (set : SortedSet α) : Bool := set.elements.isEmpty

/-- The number of elements. -/
def size (set : SortedSet α) : Nat := set.elements.length

/-- Whether the element belongs to the set. -/
def contains [DecidableEq α] (set : SortedSet α) (element : α) : Bool := decide (element ∈ set)

/-- The list with the element at its place, or unchanged if an equal one is there. -/
def insertInto (element : α) : List α → List α
  | [] => [element]
  | head :: tail =>
    match compare element head with
    | .lt => element :: head :: tail
    | .eq => head :: tail
    | .gt => head :: insertInto element tail

/-- Insertion brings in no element but the new one. -/
theorem mem_of_mem_insertInto {element other : α} {list : List α}
    (member : other ∈ insertInto element list) : other = element ∨ other ∈ list := by
  induction list with
  | nil => simpa [insertInto] using member
  | cons head tail inductionHypothesis =>
    simp only [insertInto] at member
    split at member
    · simpa using member
    · exact Or.inr member
    · rcases List.mem_cons.1 member with same | later
      · exact Or.inr (List.mem_cons.2 (Or.inl same))
      · exact (inductionHypothesis later).imp_right (List.mem_cons_of_mem head)

variable [Std.TransOrd α]

/-- Insertion keeps the order: an element placed before the head is below all of
the list, and one placed later is above the head. -/
theorem insertInto_ascending (element : α) {list : List α}
    (ascending : list.Pairwise (fun lower upper => compare lower upper = .lt)) :
    (insertInto element list).Pairwise (fun lower upper => compare lower upper = .lt) := by
  induction list with
  | nil => exact List.pairwise_singleton _ _
  | cons head tail inductionHypothesis =>
    have parts := List.pairwise_cons.1 ascending
    simp only [insertInto]
    split
    · rename_i below
      refine List.pairwise_cons.2 ⟨fun other member => ?_, ascending⟩
      rcases List.mem_cons.1 member with same | later
      · exact same ▸ below
      · exact Std.TransCmp.lt_trans below (parts.1 other later)
    · exact ascending
    · rename_i above
      refine List.pairwise_cons.2 ⟨fun other member => ?_, inductionHypothesis parts.2⟩
      rcases mem_of_mem_insertInto member with same | later
      · exact same ▸ Std.OrientedCmp.gt_iff_lt.1 above
      · exact parts.1 other later

/-- The set with the element added. -/
def insert (set : SortedSet α) (element : α) : SortedSet α :=
  ⟨insertInto element set.elements, insertInto_ascending element set.ascending⟩

/-- The set of the elements of the list. -/
def ofList (list : List α) : SortedSet α := list.foldl insert empty

/-- The elements of either set. -/
def union (left right : SortedSet α) : SortedSet α := right.elements.foldl insert left

/-- The elements which pass the test. -/
def filter (keep : α → Bool) (set : SortedSet α) : SortedSet α :=
  ⟨set.elements.filter keep, set.ascending.sublist List.filter_sublist⟩

/-- The set without the element. -/
def erase [DecidableEq α] (set : SortedSet α) (element : α) : SortedSet α :=
  set.filter (· ≠ element)

variable [Std.LawfulEqOrd α]

omit [Std.TransOrd α] in
/-- Insertion adds the element and nothing else. -/
theorem mem_insertInto {element other : α} {list : List α} :
    other ∈ insertInto element list ↔ other = element ∨ other ∈ list := by
  refine ⟨mem_of_mem_insertInto, ?_⟩
  induction list with
  | nil => simp [insertInto]
  | cons head tail inductionHypothesis =>
    intro member
    simp only [insertInto]
    split
    · simpa using member
    · rename_i same
      have same : element = head := Std.LawfulEqCmp.eq_of_compare same
      rcases member with new | old
      · exact List.mem_cons.2 (Or.inl (new.trans same))
      · exact old
    · rcases member with new | old
      · exact List.mem_cons_of_mem head (inductionHypothesis (Or.inl new))
      · rcases List.mem_cons.1 old with same | later
        · exact List.mem_cons.2 (Or.inl same)
        · exact List.mem_cons_of_mem head (inductionHypothesis (Or.inr later))

omit [Std.TransOrd α] [Std.LawfulEqOrd α] in
/-- Nothing belongs to the set without elements. -/
@[simp] theorem mem_empty {element : α} : element ∈ (empty : SortedSet α) ↔ False := by
  constructor
  · exact fun member => List.not_mem_nil member
  · exact False.elim

/-- The set with an element added has that element and those it had before. -/
@[simp] theorem mem_insert {set : SortedSet α} {element other : α} :
    other ∈ set.insert element ↔ other = element ∨ other ∈ set := mem_insertInto

/-- Folding insertion over a list adds exactly the elements of the list. -/
theorem mem_foldl_insert {set : SortedSet α} {list : List α} {other : α} :
    other ∈ list.foldl insert set ↔ other ∈ set ∨ other ∈ list := by
  induction list generalizing set with
  | nil => simp
  | cons head tail inductionHypothesis =>
    rw [List.foldl_cons, inductionHypothesis, mem_insert, List.mem_cons]
    constructor
    · rintro ((new | old) | later)
      · exact Or.inr (Or.inl new)
      · exact Or.inl old
      · exact Or.inr (Or.inr later)
    · rintro (old | new | later)
      · exact Or.inl (Or.inr old)
      · exact Or.inl (Or.inl new)
      · exact Or.inr later

/-- The set of a list has exactly the elements of the list, whatever their order and number. -/
@[simp] theorem mem_ofList {list : List α} {other : α} : other ∈ ofList list ↔ other ∈ list := by
  simp [ofList, mem_foldl_insert]

/-- A union has what either set has. -/
@[simp] theorem mem_union {left right : SortedSet α} {other : α} :
    other ∈ left.union right ↔ other ∈ left ∨ other ∈ right := mem_foldl_insert

omit [Std.TransOrd α] [Std.LawfulEqOrd α] in
/-- A filtered set keeps the elements which pass the test, and no other ones. -/
@[simp] theorem mem_filter {set : SortedSet α} {keep : α → Bool} {other : α} :
    other ∈ set.filter keep ↔ other ∈ set ∧ keep other = true := List.mem_filter

omit [Std.TransOrd α] [Std.LawfulEqOrd α] in
/-- Erasing takes out the one element and leaves all others. -/
@[simp] theorem mem_erase [DecidableEq α] {set : SortedSet α} {element other : α} :
    other ∈ set.erase element ↔ other ∈ set ∧ other ≠ element := by
  simp [erase]

omit [Std.LawfulEqOrd α] in
/-- No element is below itself, and so none is there twice. -/
theorem nodup (set : SortedSet α) : set.elements.Nodup := by
  refine set.ascending.imp ?_
  rintro element _ below rfl
  exact Std.OrientedCmp.not_lt_of_lt below below

omit [Std.LawfulEqOrd α] in
/-- Sets with the same elements are equal, as there is one ascending order of them. -/
theorem ext {left right : SortedSet α}
    (same : ∀ element, element ∈ left ↔ element ∈ right) : left = right := by
  have permuted : left.elements.Perm right.elements :=
    (List.perm_ext_iff_of_nodup left.nodup right.nodup).mpr same
  have elements : left.elements = right.elements := by
    apply permuted.eq_of_pairwise _ left.ascending right.ascending
    intro first second _ _ below above
    exact absurd above (Std.OrientedCmp.not_lt_of_lt below)
  cases left
  cases right
  cases elements
  rfl

end SortedSet
end BeliefRevision
