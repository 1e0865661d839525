import BeliefRevision.Proofs.RevisionOutcome
import BeliefRevision.Session

/-!
# Changes of a base

Whatever is asked of a session, its base stays as it is, loses the first belief with
some text, or gives up a collection and takes in a formula which what is left admits.
An invariant of bases is shown for these three changes, and holds throughout every
session from then on.
-/

namespace BeliefRevision

namespace Base

/-- A step from one base to the next. -/
inductive Change (base : Base) : Base → Prop where
  /-- The base stays as it is. -/
  | keep : Change base base
  /-- The first belief with the text is taken out. -/
  | remove (text : String) : Change base (base.remove text)
  /-- The collection is given up, and the formula written in the text is added. -/
  | add (collection : List Nat) {text : String} {formula : Formula}
      (parsed : Formula.parse (Text.trim text) = .ok formula)
      (admitted : (base.without collection).Admits formula) :
      Change base ((base.without collection).push (.ofNormalForm (Text.trim text) formula))

/-- Giving up no belief leaves the base as it is. -/
theorem without_nil (base : Base) : base.without [] = base := by
  unfold without
  simp

/-- What is left stays in its order. -/
theorem without_sublist (base : Base) (collection : List Nat) :
    (base.without collection).beliefs.Sublist base.beliefs := by
  have kept := (List.filter_sublist (p := fun entry => !collection.contains entry.2)
    (l := base.beliefs.zipIdx)).map Prod.fst
  rwa [List.zipIdx_map_fst] at kept

/-- Taking beliefs out brings in no text. -/
theorem texts_without_subset (base : Base) (collection : List Nat) :
    (base.without collection).texts ⊆ base.texts :=
  ((base.without_sublist collection).map Belief.text).subset

/-- A belief with a new text comes last. -/
theorem push_of_not_mem {base : Base} {belief : Belief}
    (fresh : Text.trim belief.text ∉ base.texts) :
    base.push belief = ⟨base.beliefs ++ [belief]⟩ := by
  rw [← contains_iff] at fresh
  rw [push, if_neg fresh]

/-- A belief with a new text comes last, behind all which were there. -/
theorem push_of_fresh {base : Base} {text : String} {formula : Formula}
    (fresh : Text.trim text ∉ base.texts) :
    base.push (.ofNormalForm (Text.trim text) formula) =
      ⟨base.beliefs ++ [.ofNormalForm (Text.trim text) formula]⟩ := by
  apply push_of_not_mem
  simpa [Belief.ofNormalForm] using fresh

/-- Adding a belief brings in no other one. -/
theorem mem_push {base : Base} {belief other : Belief}
    (member : other ∈ (base.push belief).beliefs) : other ∈ base.beliefs ∨ other = belief := by
  unfold push at member
  split at member
  · exact .inl member
  · simpa using member

/-- A belief is only added where its text is new. -/
theorem texts_push_nodup {base : Base} {belief : Belief}
    (trimmed : Text.trim belief.text = belief.text) (distinct : base.texts.Nodup) :
    (base.push belief).texts.Nodup := by
  by_cases repeated : base.contains belief.text = true
  · rw [push, if_pos repeated]
    exact distinct
  · have fresh : belief.text ∉ base.texts := by rwa [contains_iff, trimmed] at repeated
    rw [push, if_neg repeated]
    simpa [texts] using distinct.concat fresh

/-- The clauses of some of the beliefs are true where all clauses are. -/
theorem eval_clauses_of_subset {truth : Atom → Bool} {some all : Base}
    (subset : some.beliefs ⊆ all.beliefs) (holds : all.clauses.eval truth = true) :
    some.clauses.eval truth = true := by
  rw [eval_clauses_iff] at holds ⊢
  intro belief member
  exact holds belief (subset member)

/-- What makes a base and a belief true makes the base with the belief true. -/
theorem eval_clauses_push {truth : Atom → Bool} {base : Base} {belief : Belief}
    (baseHolds : base.clauses.eval truth = true) (beliefHolds : belief.clauses.eval truth = true) :
    (base.push belief).clauses.eval truth = true := by
  rw [eval_clauses_iff] at baseHolds ⊢
  intro other member
  rcases mem_push member with inside | rfl
  · exact baseHolds other inside
  · exact beliefHolds

/-- Adding a belief takes none away. -/
theorem subset_push (base : Base) (belief : Belief) :
    base.beliefs ⊆ (base.push belief).beliefs := by
  unfold push
  split
  · exact List.Subset.refl _
  · exact List.subset_append_left _ _

/-- A formula which follows adds nothing to what the clauses of the base say. -/
theorem eval_clauses_push_of_entails {base : Base} {formula : Formula}
    (follows : base.Entails formula) (text : String) (truth : Atom → Bool) :
    (base.push (.ofNormalForm text formula)).clauses.eval truth = base.clauses.eval truth := by
  rw [Bool.eq_iff_iff]
  constructor
  · exact eval_clauses_of_subset (base.subset_push _)
  · intro holds
    refine eval_clauses_push holds ?_
    rw [Belief.eval_ofNormalForm]
    exact follows truth holds

/-- A formula which is admitted leaves the base consistent once it is added. -/
theorem satisfiable_push {base : Base} {text : String} {formula : Formula}
    (admitted : base.Admits formula) :
    (base.push (.ofNormalForm text formula)).clauses.Satisfiable := by
  obtain ⟨truth, baseHolds, formulaHolds⟩ := admitted
  refine ⟨truth, eval_clauses_push baseHolds ?_⟩
  rw [Belief.eval_ofNormalForm]
  exact formulaHolds

/-- A consistent base stays consistent when a belief is removed from it. -/
theorem satisfiable_remove {base : Base} (text : String) (satisfiable : base.clauses.Satisfiable) :
    (base.remove text).clauses.Satisfiable := by
  obtain ⟨truth, holds⟩ := satisfiable
  exact ⟨truth, eval_clauses_of_subset List.eraseP_subset holds⟩

/-- Each change keeps a base consistent. -/
theorem Change.satisfiable {base next : Base} (change : base.Change next)
    (satisfiable : base.clauses.Satisfiable) : next.clauses.Satisfiable := by
  cases change with
  | keep => exact satisfiable
  | remove text => exact satisfiable_remove text satisfiable
  | add collection parsed admitted => exact satisfiable_push admitted

end Base

namespace Revision

/-- A revision which changes the base adds its formula to beliefs which admit it, and
any other revision leaves the base as it is. -/
theorem revise_base {settings : Settings} {base : Base} {text : String} {revision : Revision}
    (revised : revise settings base text = .ok revision) :
    (revision.changed = false ∧ revision.base = base) ∨
      (revision.changed = true ∧ ∃ collection formula,
        Formula.parse (Text.trim text) = .ok formula ∧
        (base.without collection).Admits formula ∧
        revision.base =
          (base.without collection).push (.ofNormalForm (Text.trim text) formula)) := by
  obtain ⟨formula, parsed⟩ := parse_of_revise revised
  cases ends_of_revise parsed revised with
  | duplicate => exact .inl ⟨rfl, rfl⟩
  | entailed => exact .inl ⟨rfl, rfl⟩
  | expanded _ _ admitted =>
    refine .inr ⟨rfl, [], formula, parsed, ?_, ?_⟩
    · rwa [base.without_nil]
    · rw [base.without_nil]
  | @contracted _ _ collection found =>
    refine .inr ⟨rfl, collection, formula, parsed, ?_, rfl⟩
    simpa only [Base.Admits, Belief.eval_ofNormalForm] using
      (Contraction.makesRoom_of_find? found).admits
  | unresolved => exact .inl ⟨rfl, rfl⟩

/-- A revision which changes the base leaves it consistent, whether or not it was. -/
theorem satisfiable_of_changed {settings : Settings} {base : Base} {text : String}
    {revision : Revision} (revised : revise settings base text = .ok revision)
    (changed : revision.changed = true) : revision.base.clauses.Satisfiable := by
  rcases revise_base revised with ⟨unchanged, _⟩ | ⟨_, _, formula, _, admitted, same⟩
  · rw [changed] at unchanged
    cases unchanged
  · rw [same]
    exact Base.satisfiable_push admitted

/-- A new formula which does not follow changes the base if there is room for it. -/
theorem changed_of_contractible {settings : Settings} {base : Base} {text : String}
    {formula : Formula} (parsed : Formula.parse (Text.trim text) = .ok formula)
    (fresh : Text.trim text ∉ base.texts)
    (undecided : ¬ (base.clauses.Satisfiable ∧ base.Entails formula))
    (room : Contractible settings base formula) :
    ∃ revision, revise settings base text = .ok revision ∧ revision.changed = true := by
  obtain ⟨revision, revised, ends⟩ := revise_ends settings base parsed
  refine ⟨revision, revised, ?_⟩
  cases ends with
  | duplicate present => exact absurd present fresh
  | entailed _ _ satisfiable follows => exact absurd ⟨satisfiable, follows⟩ undecided
  | expanded => rfl
  | contracted => rfl
  | unresolved _ _ noRoom => exact absurd room noRoom

/-- Every revision is a change of the base. -/
theorem revise_change {settings : Settings} {base : Base} {text : String} {revision : Revision}
    (revised : revise settings base text = .ok revision) : base.Change revision.base := by
  rcases revise_base revised with ⟨_, same⟩ | ⟨_, collection, formula, parsed, admitted, same⟩
  · rw [same]
    exact .keep
  · rw [same]
    exact .add collection parsed admitted

end Revision
end BeliefRevision
