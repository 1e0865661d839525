import BeliefRevision.Entrenchment
import Mathlib.Data.List.Perm.Subperm
import Mathlib.Data.List.Sort

/-!
# Combinations

The combinations of some numbers are told here in two ways. The selections of a list are found by
recursion: those with the first element come before those without it. The odometer goes on from
one selection to the next without nested calls.

By induction on the list both give the same. A first number waits while the odometer goes through
the selections of what follows it, as these have the same room with it in front of them. When they
have no room left, it goes up by one, and they begin anew behind it. So the odometer comes to an
end, and its end is known.

The odometer takes the difference of the count and the number of places. As it starts only where
the places are no more than the count, and no turn changes their number, it takes no difference
which would be negative.
-/

namespace BeliefRevision

/-- The selections of that many elements from the list, each in the order of the list, and
lexicographically one after another. -/
def selections {α : Type} : Nat → List α → List (List α)
  | 0, _ => [[]]
  | _ + 1, [] => []
  | size + 1, head :: tail =>
    if tail.length < size then []
    else (selections size tail).map (head :: ·) ++ selections (size + 1) tail

/-- The selections are the sublists of that length. -/
theorem mem_selections {α : Type} {size : Nat} {values selection : List α} :
    selection ∈ selections size values ↔ selection.Sublist values ∧ selection.length = size := by
  fun_induction selections size values generalizing selection with
  | case1 values =>
    rw [List.mem_singleton, List.length_eq_zero_iff]
    constructor
    · intro isNil
      exact ⟨isNil ▸ List.nil_sublist values, isNil⟩
    · exact fun chosen => chosen.2
  | case2 size =>
    refine iff_of_false List.not_mem_nil ?_
    rintro ⟨chosen, length⟩
    rw [List.sublist_nil.mp chosen] at length
    cases length
  | case3 size head tail tooFew =>
    refine iff_of_false List.not_mem_nil ?_
    rintro ⟨chosen, length⟩
    have shorter := chosen.length_le
    rw [List.length_cons] at shorter
    omega
  | case4 size head tail enough withHead withoutHead =>
    rw [List.mem_append, List.mem_map, withoutHead, List.sublist_cons_iff]
    constructor
    · rintro (⟨rest, chosen, rfl⟩ | ⟨chosen, length⟩)
      · obtain ⟨chosen, length⟩ := withHead.mp chosen
        exact ⟨.inr ⟨rest, rfl, chosen⟩, congrArg (· + 1) length⟩
      · exact ⟨.inl chosen, length⟩
    · rintro ⟨chosen | ⟨rest, rfl, chosen⟩, length⟩
      · exact .inr ⟨chosen, length⟩
      · exact .inl ⟨rest, withHead.mpr ⟨chosen, Nat.succ.inj length⟩, rfl⟩

example : selections 2 [3, 1, 2] = [[3, 1], [3, 2], [1, 2]] := by decide

/-- The selections come in lexicographic order, where the values come in order. -/
theorem selections_pairwise {α : Type} {before : α → α → Prop} {values : List α}
    (ordered : values.Pairwise before) (size : Nat) :
    (selections size values).Pairwise (List.Lex before) := by
  fun_induction selections size values with
  | case1 values => exact List.pairwise_singleton _ _
  | case2 size => exact .nil
  | case3 size head tail tooFew => exact .nil
  | case4 size head tail enough withHead withoutHead =>
    obtain ⟨first, later⟩ := List.pairwise_cons.mp ordered
    refine List.pairwise_append.mpr ⟨?_, withoutHead later, ?_⟩
    · exact List.pairwise_map.mpr ((withHead later).imp .cons)
    · intro selection inFirst other inLater
      obtain ⟨rest, _, rfl⟩ := List.mem_map.mp inFirst
      obtain ⟨chosen, length⟩ := mem_selections.mp inLater
      cases other with
      | nil => cases length
      | cons index others => exact .rel (first index (chosen.subset List.mem_cons_self))

/-- Selecting goes by the places of the elements alone. -/
theorem selections_map {α β : Type} (change : α → β) (size : Nat) (values : List α) :
    selections size (values.map change) = (selections size values).map (List.map change) := by
  fun_induction selections size values with
  | case1 values => simp [selections]
  | case2 size => simp [selections]
  | case3 size head tail tooFew => simp [selections, tooFew]
  | case4 size head tail enough withHead withoutHead =>
    simp [selections, enough, withHead, withoutHead]

/-- Nothing can be selected where there are fewer values than asked for. -/
theorem selections_eq_nil {α : Type} {size : Nat} {values : List α}
    (tooFew : values.length < size) : selections size values = [] := by
  rw [List.eq_nil_iff_forall_not_mem]
  intro selection member
  obtain ⟨chosen, length⟩ := mem_selections.mp member
  have bound := chosen.length_le
  omega

/-- There are no more selections than sets of elements. -/
theorem length_selections_le {α : Type} (size : Nat) (values : List α) :
    (selections size values).length ≤ Nat.pow 2 values.length := by
  fun_induction selections size values with
  | case1 values => exact Nat.one_le_two_pow
  | case2 size | case3 size head tail tooFew => exact Nat.zero_le _
  | case4 size head tail enough withHead withoutHead =>
    have double : Nat.pow 2 (tail.length + 1) = Nat.pow 2 tail.length * 2 := rfl
    rw [List.length_append, List.length_map, List.length_cons, double]
    omega

section Odometer

variable {count size limit : Nat} {selection next last : List Nat} {shown listed : List (List Nat)}

/-- The numbers behind another one have as much room as without it, and it goes up by one only
when they have none left. -/
theorem nextSelection?_cons {head : Nat} {tail : List Nat} (fits : tail.length < count) :
    nextSelection? count (head :: tail) =
      ((nextSelection? count tail).map (head :: ·)).or
        (if head < count - (tail.length + 1) then
          some (List.range' (head + 1) (tail.length + 1)) else none) := by
  have room (place : Nat) :
      count - (tail.length + 1) + (place + 1) = count - tail.length + place := by omega
  simp only [nextSelection?, List.zipIdx_cons, List.reverse_cons, List.find?_append,
    List.length_cons, List.zipIdx_succ, ← List.map_reverse, List.find?_map, Function.comp_def, room]
  cases List.find? (fun x => decide (x.1 < count - tail.length + x.2)) tail.zipIdx.reverse with
  | none => by_cases moves : head < count - (tail.length + 1) <;> simp [moves]
  | some pivot => simp

/-- The last numbers below the count have no room left. -/
theorem nextSelection?_last :
    nextSelection? count (List.range' (count - size) size) = none := by
  rw [nextSelection?, Option.map_eq_none_iff, List.find?_eq_none]
  intro (number, place) member
  obtain ⟨_, _, here⟩ := List.mem_zipIdx (List.mem_reverse.mp member)
  simp only [Nat.sub_zero, List.getElem_range', Nat.one_mul, List.length_range', decide_eq_true_eq,
    not_lt] at here ⊢
  omega

/-- Where the numbers behind the first have no room left, it goes up by one, and they begin anew
behind it. -/
theorem nextSelection?_cons_last {first : Nat} (room : first + size + 1 < count) :
    nextSelection? count (first :: List.range' (count - size) size) =
      some (List.range' (first + 1) (size + 1)) := by
  have fits : (List.range' (count - size) size).length < count := by
    rw [List.length_range']
    omega
  rw [nextSelection?_cons fits, nextSelection?_last, List.length_range', if_pos (by omega)]
  rfl

/-- The odometer moves on within one size. -/
theorem length_nextSelection? (moved : nextSelection? count selection = some next) :
    next.length = selection.length := by
  obtain ⟨⟨number, place⟩, found, rfl⟩ := Option.map_eq_some_iff.mp moved
  have inside := List.mem_zipIdx (List.mem_reverse.mp (List.mem_of_find?_eq_some found))
  simp only [List.length_append, List.length_take, List.length_range']
  omega

/-- The turns from a selection to another one, with the selections shown before the last. No
difference of the count and the number of places is negative. -/
inductive Turns (count : Nat) : List Nat → List (List Nat) → List Nat → Prop where
  | none {selection : List Nat} : Turns count selection [] selection
  | further {selection next last : List Nat} {shown : List (List Nat)} :
      selection.length ≤ count → nextSelection? count selection = some next →
      Turns count next shown last → Turns count selection (selection :: shown) last

/-- Two runs of the odometer, of which one ends where the other begins, make up one run. -/
theorem Turns.append {others : List (List Nat)} {final : List Nat}
    (turns : Turns count selection shown last) (more : Turns count last others final) :
    Turns count selection (shown ++ others) final := by
  induction turns with
  | none => exact more
  | further fits moved _ inductionHypothesis =>
    exact .further fits moved (inductionHypothesis more)

/-- A number in front of the others waits while these turn. -/
theorem Turns.behind (turns : Turns count selection shown last) (head : Nat)
    (fits : selection.length < count) :
    Turns count (head :: selection) (shown.map (head :: ·)) (head :: last) := by
  induction turns with
  | none => exact .none
  | further _ moved _ inductionHypothesis =>
    have sameLength := length_nextSelection? moved
    apply Turns.further fits
    · rw [nextSelection?_cons fits, moved, Option.map_some, Option.some_or]
    · exact inductionHypothesis (by omega)

/-- The odometer goes through the selections of the numbers from one on, from the first numbers to
the last. -/
theorem selections_turns {room first : Nat} (enough : size ≤ room) (top : first + room = count) :
    ∃ shown, selections size (List.range' first room) =
        shown ++ [List.range' (count - size) size] ∧
      Turns count (List.range' first size) shown (List.range' (count - size) size) := by
  induction room generalizing first size with
  | zero =>
    obtain rfl : size = 0 := Nat.le_zero.mp enough
    exact ⟨[], by simp [selections], .none⟩
  | succ room inductionHypothesis =>
    cases size with
    | zero => exact ⟨[], by simp [selections], .none⟩
    | succ size =>
      have topLater : first + 1 + room = count := by omega
      obtain ⟨waiting, withFirst, turns⟩ :=
        inductionHypothesis (Nat.le_of_succ_le_succ enough) topLater
      have behind := turns.behind first (by rw [List.length_range']; omega)
      rw [← List.range'_succ] at behind
      have parts : selections (size + 1) (List.range' first (room + 1)) =
          waiting.map (first :: ·) ++ (first :: List.range' (count - size) size) ::
            selections (size + 1) (List.range' (first + 1) room) := by
        have enoughLeft : ¬(List.range' (first + 1) room).length < size := by
          rw [List.length_range']
          omega
        rw [List.range'_succ, selections, if_neg enoughLeft, withFirst]
        simp
      -- If the first number can go up, the selections without it are still to come.
      by_cases more : size + 1 ≤ room
      · obtain ⟨others, withoutFirst, later⟩ := inductionHypothesis more topLater
        refine ⟨waiting.map (first :: ·) ++ (first :: List.range' (count - size) size) :: others,
          ?_, ?_⟩
        · rw [parts, withoutFirst, List.append_assoc, List.cons_append]
        · apply behind.append
          apply Turns.further _ (nextSelection?_cons_last (by omega)) later
          rw [List.length_cons, List.length_range']
          omega
      · have nothing : selections (size + 1) (List.range' (first + 1) room) = [] :=
          selections_eq_nil (by rw [List.length_range']; omega)
        have atEnd : first :: List.range' (count - size) size =
            List.range' (count - (size + 1)) (size + 1) := by
          have here : first = count - (size + 1) := by omega
          have following : count - size = first + 1 := by omega
          rw [following, ← here, List.range'_succ]
        rw [parts, nothing, atEnd]
        rw [atEnd] at behind
        exact ⟨waiting.map (first :: ·), rfl, behind⟩

/-- With a limit the same selections are shown, as long as they are within it. -/
theorem listSelections_of_turns (turns : Turns count selection shown last)
    (ended : nextSelection? count last = none) (within : shown.length < limit) :
    listSelections count limit listed selection = some (listed.reverse ++ (shown ++ [last])) := by
  induction turns generalizing limit listed with
  | none =>
    obtain ⟨limit, rfl⟩ := Nat.exists_eq_add_of_le' within
    simp [listSelections, ended]
  | @further selection _ _ others _ moved _ inductionHypothesis =>
    obtain ⟨limit, rfl⟩ := Nat.exists_eq_add_of_le' (Nat.one_le_of_lt within)
    have shorter : others.length < limit := Nat.lt_of_succ_lt_succ within
    have rest : listSelections count limit (selection :: listed) _ = _ :=
      inductionHypothesis ended shorter
    rw [listSelections, moved]
    simpa using rest

end Odometer

/-- The combinations are the selections of the numbers below the count. -/
theorem combinations_eq_selections (count size : Nat) :
    combinations count size = selections size (List.range count) := by
  rw [combinations]
  split
  case isTrue tooFew => rw [selections_eq_nil (by rwa [List.length_range])]
  case isFalse enough =>
    obtain ⟨shown, all, turns⟩ := selections_turns (Nat.le_of_not_lt enough) (Nat.zero_add count)
    have bounded := length_selections_le size (List.range' 0 count)
    rw [all, List.length_append, List.length_singleton, List.length_range'] at bounded
    rw [List.range_eq_range', List.range_eq_range', all,
      listSelections_of_turns turns nextSelection?_last bounded]
    rfl

/-- To select from any list is to take the elements at the combinations of its places. -/
theorem selections_eq_map_combinations (size : Nat) (values : List Nat) :
    selections size values =
      (combinations values.length size).map fun places => places.map (values.getD · 0) := by
  have byPlace : (List.range values.length).map (values.getD · 0) = values := by
    apply List.ext_getElem
    · rw [List.length_map, List.length_range]
    · intro place _ inside
      simp [inside]
  rw [combinations_eq_selections, ← selections_map, byPlace]

/-- Numbers below the count are taken out of all of them in order exactly when they ascend. -/
theorem sublist_range_iff {count : Nat} {numbers : List Nat} :
    numbers.Sublist (List.range count) ↔
      numbers.Pairwise (· < ·) ∧ ∀ number ∈ numbers, number < count := by
  constructor
  · intro chosen
    refine ⟨List.pairwise_lt_range.sublist chosen, fun number member => ?_⟩
    exact List.mem_range.mp (chosen.subset member)
  · rintro ⟨ascending, below⟩
    have covered : numbers ⊆ List.range count := fun number member =>
      List.mem_range.mpr (below number member)
    have distinct : numbers.Nodup := ascending.imp Nat.ne_of_lt
    exact List.sublist_of_subperm_of_pairwise (List.subperm_of_subset distinct covered) ascending
      List.pairwise_lt_range

/-- The combinations are the ascending lists of that many numbers below the count, each of them
once and in lexicographic order. If there can be any, the odometer which lists them comes to an
end by itself, and no difference that it takes is negative. -/
theorem combinations_exact (count size : Nat) :
    (size ≤ count → ∃ shown last, Turns count (List.range size) shown last ∧
      last.length ≤ count ∧ nextSelection? count last = none ∧
      combinations count size = shown ++ [last]) ∧
    (∀ numbers, numbers ∈ combinations count size ↔
      numbers.length = size ∧ numbers.Pairwise (· < ·) ∧ ∀ number ∈ numbers, number < count) ∧
    (combinations count size).Nodup ∧
    (combinations count size).Pairwise (List.Lex (· < ·)) ∧
    (count < size → combinations count size = []) ∧
    combinations count 0 = [[]] := by
  have lexicographic : (combinations count size).Pairwise (List.Lex (· < ·)) := by
    rw [combinations_eq_selections]
    exact selections_pairwise List.pairwise_lt_range size
  refine ⟨?_, ?_, ?_, lexicographic, ?_, ?_⟩
  · intro enough
    obtain ⟨shown, all, turns⟩ := selections_turns enough (Nat.zero_add count)
    refine ⟨shown, _, List.range_eq_range' ▸ turns, ?_, nextSelection?_last, ?_⟩
    · rwa [List.length_range']
    · rw [combinations_eq_selections, List.range_eq_range', all]
  · intro numbers
    rw [combinations_eq_selections, mem_selections, sublist_range_iff, and_comm]
  · refine lexicographic.imp ?_
    rintro numbers _ before rfl
    exact List.lex_irrefl Nat.lt_irrefl _ before
  · intro tooFew
    rw [combinations, if_pos tooFew]
  · rw [combinations_eq_selections, selections]

end BeliefRevision
