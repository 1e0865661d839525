import BeliefRevision.Proofs.Enumeration

/-!
# Least models

Two valuations of the same atoms are compared by their values, atom by atom in the order of the
atoms, with false before true. In this order the valuations of some atoms are listed, each once.
The first which makes some formulas true is therefore the least to do so.

A valuation which is tried is one of the atoms that occur in the formulas. As no other atom
matters to them, there is a model among these valuations if there is any assignment at all which
makes the formulas true.
-/

namespace BeliefRevision

namespace Valuation

/-- The first valuation gives false and the second gives true to the first atom at which they
differ. -/
def Precedes (first second : Valuation) : Prop :=
  List.Lex (· < ·) (first.map Prod.snd) (second.map Prod.snd)

/-- The valuation gives a value to each of the atoms, in order, and to no other atom. -/
def IsOf (valuation : Valuation) (atoms : SortedSet Atom) : Prop :=
  valuation.map Prod.fst = atoms.elements

/-- What is listed are the valuations of the atoms. -/
theorem mem_all {atoms : List Atom} {valuation : Valuation} :
    valuation ∈ all atoms ↔ valuation.map Prod.fst = atoms := by
  induction atoms generalizing valuation with
  | nil => rw [all, List.mem_singleton, List.map_eq_nil_iff]
  | cons atom atoms inductionHypothesis =>
    simp only [all, List.mem_append, List.mem_map, inductionHypothesis]
    constructor
    · rintro (⟨others, rfl, rfl⟩ | ⟨others, rfl, rfl⟩) <;> rfl
    · intro same
      obtain ⟨⟨_, value⟩, others, rfl, rfl, isRest⟩ := List.map_eq_cons_iff.mp same
      cases value with
      | false => exact .inl ⟨others, isRest, rfl⟩
      | true => exact .inr ⟨others, isRest, rfl⟩

/-- They are listed in ascending order: the first atom decides, and where it has the same value,
the others do. -/
theorem all_ascending (atoms : List Atom) :
    (all atoms).Pairwise Precedes := by
  induction atoms with
  | nil => exact List.pairwise_singleton _ _
  | cons atom atoms inductionHypothesis =>
    have extended (value : Bool) :
        ((all atoms).map ((atom, value) :: ·)).Pairwise Precedes := by
      refine List.pairwise_map.mpr (inductionHypothesis.imp ?_)
      intro first second before
      exact List.Lex.cons before
    refine List.pairwise_append.mpr ⟨extended false, extended true, ?_⟩
    intro first isFirst second isSecond
    obtain ⟨others, _, rfl⟩ := List.mem_map.mp isFirst
    obtain ⟨more, _, rfl⟩ := List.mem_map.mp isSecond
    exact List.Lex.rel Bool.false_lt_true

/-- No valuation comes before itself, and so none is listed twice. -/
theorem not_precedes_self (valuation : Valuation) : ¬ valuation.Precedes valuation :=
  List.lex_irrefl Bool.lt_irrefl _

/-- Two valuations never come before each other, and so there is one least model at most. -/
theorem Precedes.asymm {first second : Valuation} (before : first.Precedes second) :
    ¬ second.Precedes first :=
  List.lex_asymm Bool.lt_asymm before

/-- No valuation is listed twice. -/
theorem nodup_all (atoms : List Atom) : (all atoms).Nodup := by
  refine (all_ascending atoms).imp ?_
  rintro first second before rfl
  exact first.not_precedes_self before

/-- Where a search through valuations in ascending order ends, all others which pass the test come
later. -/
theorem eq_or_precedes_of_find? {valuations : List Valuation} {test : Valuation → Bool}
    (ascending : valuations.Pairwise Precedes) {first other : Valuation}
    (found : valuations.find? test = some first) (member : other ∈ valuations)
    (passes : test other = true) : other = first ∨ first.Precedes other := by
  obtain ⟨_, before, after, rfl, failed⟩ := List.find?_eq_some_iff_append.mp found
  rcases List.mem_append.mp member with earlier | later
  · have fails := failed other earlier
    rw [passes] at fails
    cases fails
  · have others := (List.pairwise_append.mp ascending).2.1
    exact (List.mem_cons.mp later).imp_right (List.rel_of_pairwise_cons others)

/-- What it finds is the least which passes. -/
theorem find?_eq_some_iff {valuations : List Valuation} {test : Valuation → Bool}
    (ascending : valuations.Pairwise Precedes) {valuation : Valuation} :
    valuations.find? test = some valuation ↔
      valuation ∈ valuations ∧ test valuation = true ∧
        ∀ other ∈ valuations, test other = true → other = valuation ∨ valuation.Precedes other := by
  constructor
  · intro found
    refine ⟨List.mem_of_find?_eq_some found, List.find?_some found, ?_⟩
    intro other member passes
    exact eq_or_precedes_of_find? ascending found member passes
  · rintro ⟨member, passes, isLeast⟩
    cases found : valuations.find? test with
    | none => exact absurd passes (List.find?_eq_none.mp found valuation member)
    | some first =>
      have least := isLeast first (List.mem_of_find?_eq_some found) (List.find?_some found)
      rcases eq_or_precedes_of_find? ascending found member passes with rfl | before
      · rfl
      · exact congrArg some (least.resolve_right before.asymm)

end Valuation

namespace Formula

/-- The valuation gives values to the atoms of the formulas, makes all of the formulas true, and
is the least of the valuations which do. -/
structure IsLeastModel (formulas : List Formula) (valuation : Valuation) : Prop where
  isOf : valuation.IsOf (atomsOf formulas)
  holds : ∀ formula ∈ formulas, formula.eval valuation.truth = true
  least : ∀ other : Valuation, other.IsOf (atomsOf formulas) →
    (∀ formula ∈ formulas, formula.eval other.truth = true) →
      other = valuation ∨ valuation.Precedes other

/-- The model which is found is the least one: it makes the formulas true, and all listed before it
do not. -/
theorem model?_eq_some_iff {formulas : List Formula} {valuation : Valuation} :
    model? formulas = some valuation ↔ IsLeastModel formulas valuation := by
  rw [model?, Valuation.find?_eq_some_iff (Valuation.all_ascending _)]
  simp only [Valuation.mem_all, List.all_eq_true]
  constructor
  · rintro ⟨isOf, holds, least⟩
    exact ⟨isOf, holds, least⟩
  · rintro ⟨isOf, holds, least⟩
    exact ⟨isOf, holds, least⟩

/-- A model is found exactly where some assignment to all atoms makes the formulas true. It is
then the least valuation of the atoms which occur in the formulas that makes them true. The
valuations of any atoms are listed in this order, each once. -/
theorem model?_exact (formulas : List Formula) (atoms : SortedSet Atom) :
    ((∃ valuation, model? formulas = some valuation) ↔
      ∃ truth : Atom → Bool, ∀ formula ∈ formulas, formula.eval truth = true) ∧
    (∀ valuation, model? formulas = some valuation ↔ IsLeastModel formulas valuation) ∧
    (∀ leaf, leaf ∈ (atomsOf formulas).elements ↔
      ∃ formula ∈ formulas, leaf ∈ formula.occurrences) ∧
    (∀ valuation : Valuation, valuation ∈ Valuation.all atoms.elements ↔ valuation.IsOf atoms) ∧
    (Valuation.all atoms.elements).Nodup ∧
    (Valuation.all atoms.elements).Pairwise Valuation.Precedes := by
  refine ⟨?_, fun valuation => model?_eq_some_iff, fun leaf => ?_, fun valuation => ?_, ?_, ?_⟩
  · rw [← isSatisfiable_iff, isSatisfiable, Option.isSome_iff_exists]
  · exact SortedSet.mem_ofList.trans List.mem_flatMap
  · exact Valuation.mem_all
  · exact Valuation.nodup_all _
  · exact Valuation.all_ascending _

end Formula
end BeliefRevision
