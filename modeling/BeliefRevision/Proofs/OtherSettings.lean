import BeliefRevision.Proofs.Postulates

/-!
# Revision under other settings

A revision may be asked to leave out a formula which follows from the base. This saves a belief
and changes nothing else: whether or not it is asked to, the base which results is true under the
same assignments, and a formula which is left out would have been added without giving up any
belief.

A revision may also be limited in how many beliefs it gives up. The collections are tried in the
same order under every limit, each search going on to its own limit. A lower limit therefore
turns some contractions away as unresolved, and has no influence on those which it lets through.
-/

namespace BeliefRevision

namespace Settings

/-- The settings, with what follows left out or not. -/
def withCheck (settings : Settings) (check : Bool) : Settings :=
  { settings with entailmentCheck := check }

/-- The settings, with this limit to how many beliefs may be given up. -/
def withLimit (settings : Settings) (limit : Option Nat) : Settings :=
  { settings with contractionLimit := limit }

end Settings

namespace Contraction

/-- The limit lets so many beliefs be given up. Where there is no limit, any number may be. -/
def Permits (limit : Option Nat) (count : Nat) : Prop := ∀ bound ∈ limit, count ≤ bound

/-- The one limit is no greater than the other, where having no limit is the greatest. -/
def AtMost (lower upper : Option Nat) : Prop := ∀ bound ∈ upper, ∃ least ∈ lower, least ≤ bound

/-- What was found is within a limit exactly when the limit permits it, as there are as many
beliefs in the base in any case. -/
theorem le_limit_iff_of_find? {settings others : Settings} {base : Base} {belief : Belief}
    {collection : List Nat} (found : find? settings base belief = some collection) :
    collection.length ≤ limit others base ↔ Permits others.contractionLimit collection.length := by
  have limited := (makesRoom_of_find? found).limited
  have inside : collection.length ≤ base.size := Nat.le_trans limited (Nat.min_le_right _ _)
  cases bound : others.contractionLimit with
  | none => simp [limit, Permits, bound, inside]
  | some least => simp [limit, Permits, bound, inside]

/-- A lower limit lets no more beliefs be given up than a higher one. -/
theorem limit_withLimit_le {lower upper : Option Nat} (ordered : AtMost lower upper)
    (settings : Settings) (base : Base) :
    limit (settings.withLimit lower) base ≤ limit (settings.withLimit upper) base := by
  cases upper with
  | none => simp [limit, Settings.withLimit]
  | some bound =>
    obtain ⟨least, rfl, smaller⟩ := ordered bound rfl
    simp only [limit, Settings.withLimit, Option.getD_some]
    omega

end Contraction

namespace Revision

/-- How a revision which leaves out what follows compares with one which does not. -/
structure LeavesOut (checked unchecked : Revision) : Prop where
  /-- The two bases are true under the same assignments. -/
  meaning : ∀ truth, checked.base.clauses.eval truth = unchecked.base.clauses.eval truth
  /-- The revisions differ at most where the formula was left out. -/
  same : checked.outcome ≠ .entailed → checked = unchecked
  /-- Where it was left out, it would have been added with nothing given up. -/
  added : checked.outcome = .entailed → unchecked.outcome = .expanded

/-- A revision which left nothing out compares with itself. -/
theorem LeavesOut.ofSame {revision : Revision} (decided : revision.outcome ≠ .entailed) :
    LeavesOut revision revision where
  meaning := fun _ => rfl
  same := fun _ => rfl
  added := fun leftOut => absurd leftOut decided

/-- Once a formula is to be added, it is of no interest whether it would have been left out. -/
theorem ofBelief_withCheck (settings : Settings) (check : Bool) (base : Base) (belief : Belief) :
    ofBelief (settings.withCheck check) base belief = ofBelief settings base belief := by
  have sameLimit : (settings.withCheck check).contractionLimit = settings.contractionLimit := rfl
  exact ofBelief_congr (Contraction.find?_congr sameLimit (fun _ => rfl) base)

/-- What is done with a belief that may be added never ends with it being entailed, which is decided
before. -/
theorem ofBelief_ne_entailed (settings : Settings) (base : Base) (belief : Belief) :
    (ofBelief settings base belief).outcome ≠ .entailed := by
  rcases ofBelief_cases settings base belief with
    ⟨_, added⟩ | ⟨_, collection, _, _, added⟩ | ⟨_, _, added⟩
  all_goals simp [added]

/-- Leaving out what follows makes no difference to what follows. With and without it a revision
is refused for the same cause, or comes to bases which are true under the same assignments. Those
are in fact the same base, unless the formula was left out on one side and added on the other.
A base which holds a contradiction is revised alike on both sides, as nothing is left out of it. -/
theorem revise_withCheck (settings : Settings) (base : Base) (text : String) :
    Paired LeavesOut (revise (settings.withCheck true) base text)
      (revise (settings.withCheck false) base text) := by
  cases parsed : Formula.parse (Text.trim text) with
  | error cause =>
    rw [revise_of_refused (settings.withCheck true) base parsed,
      revise_of_refused (settings.withCheck false) base parsed]
    exact .refused (.parse cause)
  | ok formula =>
    by_cases present : Text.trim text ∈ base.texts
    · rw [revise_of_present parsed present, revise_of_present parsed present]
      exact .made (.ofSame nofun)
    · have unchecked : revise (settings.withCheck false) base text =
          .ok (ofBelief settings base (.ofNormalForm (Text.trim text) formula)) := by
        rw [revise_of_undecided parsed present (by simp [Settings.withCheck]), ofBelief_withCheck]
      by_cases entailed : base.clauses.Satisfiable ∧ base.Entails formula
      · have checked : revise (settings.withCheck true) base text =
            .ok ⟨base, [⟨.alreadyEntailed, Text.trim text⟩], .entailed⟩ :=
          revise_of_entailed parsed present ⟨rfl, entailed⟩
        obtain ⟨⟨truth, holds⟩, follows⟩ := entailed
        have admitted : base.Admits formula := ⟨truth, holds, follows truth holds⟩
        rw [checked, unchecked, ofBelief_of_admits (admits_ofNormalForm.mpr admitted)]
        refine .made ⟨fun truth => ?_, fun decided => absurd rfl decided, fun _ => rfl⟩
        exact (Base.eval_clauses_push_of_entails follows _ truth).symm
      · have checked : revise (settings.withCheck true) base text =
            .ok (ofBelief settings base (.ofNormalForm (Text.trim text) formula)) := by
          rw [revise_of_undecided parsed present fun decided => entailed decided.2,
            ofBelief_withCheck]
        rw [checked, unchecked]
        exact .made (.ofSame (ofBelief_ne_entailed _ _ _))

/-- How a revision with a limit on what may be given up compares with one under a limit which is
no lower. -/
structure CutsOff (limit : Option Nat) (base : Base) (limited other : Revision) : Prop where
  /-- A revision which the limit leaves resolved is the same as under the other limit. -/
  resolved : limited.outcome ≠ .unresolved → other = limited
  /-- A contraction is the same if the limit permits it. -/
  within : ∀ removed, other.outcome = .contracted removed →
    Contraction.Permits limit removed.length → limited = other
  /-- A contraction is turned away if the limit does not permit it, and the base is kept. -/
  beyond : ∀ removed, other.outcome = .contracted removed →
    ¬ Contraction.Permits limit removed.length →
      limited.outcome = .unresolved ∧ limited.base = base

/-- A revision within the limit compares with itself. -/
theorem CutsOff.ofSame {limit : Option Nat} {base : Base} {revision : Revision}
    (permitted : ∀ removed, revision.outcome = .contracted removed →
      Contraction.Permits limit removed.length) : CutsOff limit base revision revision where
  resolved := fun _ => rfl
  within := fun _ _ _ => rfl
  beyond := fun removed contracted beyond => absurd (permitted removed contracted) beyond

/-- A contraction reports as many beliefs as the search has found. -/
theorem exists_find?_of_contracted {settings : Settings} {base : Base} {belief : Belief}
    {removed : List String}
    (contracted : (ofBelief settings base belief).outcome = .contracted removed) :
    ∃ collection, Contraction.find? settings base belief = some collection ∧
      removed.length = collection.length := by
  rcases ofBelief_cases settings base belief with
    ⟨_, added⟩ | ⟨_, collection, found, _, added⟩ | ⟨_, _, added⟩
  · rw [added] at contracted
    cases contracted
  · rw [added] at contracted
    cases contracted
    exact ⟨collection, found, length_texts_of_find? found⟩
  · rw [added] at contracted
    cases contracted

/-- What is given up is no more than the limit permits. -/
theorem permits_of_contracted {settings : Settings} {base : Base} {belief : Belief}
    {removed : List String}
    (contracted : (ofBelief settings base belief).outcome = .contracted removed) :
    Contraction.Permits settings.contractionLimit removed.length := by
  obtain ⟨collection, found, sameLength⟩ := exists_find?_of_contracted contracted
  rw [sameLength, ← Contraction.le_limit_iff_of_find? found]
  exact (Contraction.makesRoom_of_find? found).limited

section
variable {lower upper : Option Nat} {settings : Settings} {base : Base} {belief : Belief}

/-- Where the search finds the same under both limits, the belief is added in the same way. -/
theorem ofBelief_cutsOff_of_same
    (sameFound : Contraction.find? (settings.withLimit lower) base belief =
      Contraction.find? (settings.withLimit upper) base belief) :
    CutsOff lower base (ofBelief (settings.withLimit lower) base belief)
      (ofBelief (settings.withLimit upper) base belief) := by
  rw [← ofBelief_congr sameFound]
  exact .ofSame fun removed contracted => permits_of_contracted contracted

/-- Where nothing is found under the lower limit, a belief is unresolved, or else is admitted
without a search. -/
theorem ofBelief_cutsOff_of_beyond {collection : List Nat}
    (found : Contraction.find? (settings.withLimit upper) base belief = some collection)
    (notFound : Contraction.find? (settings.withLimit lower) base belief = none)
    (beyond : ¬ Contraction.Permits lower collection.length) :
    CutsOff lower base (ofBelief (settings.withLimit lower) base belief)
      (ofBelief (settings.withLimit upper) base belief) := by
  cases admits : Contraction.admits settings.tautologyPruning base belief with
  | true =>
    have limited : ofBelief (settings.withLimit lower) base belief = _ := ofBelief_of_admits admits
    have other : ofBelief (settings.withLimit upper) base belief = _ := ofBelief_of_admits admits
    rw [limited, other]
    exact .ofSame nofun
  | false =>
    have limited : ofBelief (settings.withLimit lower) base belief = _ :=
      ofBelief_of_notFound admits notFound
    have other : ofBelief (settings.withLimit upper) base belief = _ :=
      ofBelief_of_found admits found
    rw [limited, other]
    refine ⟨fun resolved => absurd rfl resolved, ?_, fun _ _ _ => ⟨rfl, rfl⟩⟩
    rintro removed contracted permitted
    cases contracted
    rw [length_texts_of_find? found] at permitted
    exact absurd permitted beyond

/-- Under two limits a belief is added in the same way, unless what is given up for it under the
higher limit exceeds the lower one. -/
theorem ofBelief_cutsOff (ordered : Contraction.AtMost lower upper) :
    CutsOff lower base (ofBelief (settings.withLimit lower) base belief)
      (ofBelief (settings.withLimit upper) base belief) := by
  cases found : Contraction.find? (settings.withLimit upper) base belief with
  | none =>
    cases foundLower : Contraction.find? (settings.withLimit lower) base belief with
    | none => exact ofBelief_cutsOff_of_same (foundLower.trans found.symm)
    | some collection =>
      have limited := (Contraction.makesRoom_of_find? foundLower).limited
      have within := Nat.le_trans limited (Contraction.limit_withLimit_le ordered settings base)
      have foundUpper := (Contraction.find?_of_find? foundLower).trans (if_pos within)
      rw [found] at foundUpper
      cases foundUpper
  | some collection =>
    have foundLower : Contraction.find? (settings.withLimit lower) base belief = _ :=
      Contraction.find?_of_find? found
    have permitted : collection.length ≤ Contraction.limit (settings.withLimit lower) base ↔
        Contraction.Permits lower collection.length := Contraction.le_limit_iff_of_find? found
    by_cases within : collection.length ≤ Contraction.limit (settings.withLimit lower) base
    · rw [if_pos within] at foundLower
      exact ofBelief_cutsOff_of_same (foundLower.trans found.symm)
    · rw [if_neg within] at foundLower
      rw [permitted] at within
      exact ofBelief_cutsOff_of_beyond found foundLower within

end

/-- A limit only cuts off. Of two revisions under limits in order, the one under the lower limit is
the other one as well unless it is unresolved; and a contraction under the higher limit is the
same under the lower one if that permits it, and unresolved if not. -/
theorem revise_withLimit {lower upper : Option Nat} (ordered : Contraction.AtMost lower upper)
    (settings : Settings) (base : Base) (text : String) :
    Paired (CutsOff lower base) (revise (settings.withLimit lower) base text)
      (revise (settings.withLimit upper) base text) := by
  refine paired_of_added Iff.rfl (fun _ => Iff.rfl) (.ofSame nofun) (.ofSame nofun) ?_
  intro formula
  exact ofBelief_cutsOff ordered

/-- One belief given up is not enough for the formula, as either disjunct of what it denies is
believed. -/
theorem not_permits_one {collection : List Nat} (found : Contraction.find? {} contradictoryBase
    (.ofNormalForm (Text.trim " ¬(P∨Q) ") neitherFormula) = some collection) :
    ¬ Contraction.Permits (some 1) collection.length := by
  have room := Contraction.makesRoom_of_find? found
  intro permitted
  have one : collection.length = 1 := Nat.le_antisymm (permitted 1 rfl) room.nonempty
  obtain ⟨index, rfl⟩ := List.length_eq_one_iff.mp one
  have inside : index < 3 := room.inside index (List.mem_singleton.mpr rfl)
  obtain ⟨truth, holds, neither⟩ := room.admits
  have values := Base.eval_clauses_iff.mp holds
  rw [Belief.eval_ofNormalForm] at neither
  simp only [neitherFormula, Formula.eval, Connective.apply, Bool.not_eq_true',
    Bool.or_eq_false_iff] at neither
  have position : index = 0 ∨ index = 1 ∨ index = 2 := by omega
  rcases position with rfl | rfl | rfl
  all_goals simp [contradictoryBase, Base.without, Formula.eval, neither] at values

/-- Under a limit of one belief the formula is turned away for which two have to go. -/
theorem revise_withLimit_one :
    ∃ revision removed limited, revise {} contradictoryBase " ¬(P∨Q) " = .ok revision ∧
      revision.outcome = .contracted removed ∧
      revise (Settings.withLimit {} (some 1)) contradictoryBase " ¬(P∨Q) " = .ok limited ∧
      limited.outcome = .unresolved ∧ limited.base = contradictoryBase := by
  obtain ⟨revision, removed, revised, contracted⟩ := contracted_contradictory
  have exceeds : ¬ Contraction.Permits (some 1) removed.length := by
    cases ends_of_revise parse_neither revised with
    | duplicate | entailed | expanded | unresolved => cases contracted
    | contracted _ _ found =>
      cases contracted
      rw [length_texts_of_find? found]
      exact not_permits_one found
  have paired := @revise_withLimit (some 1) none nofun {} contradictoryBase " ¬(P∨Q) "
  have unlimited : revise (Settings.withLimit {} none) contradictoryBase " ¬(P∨Q) " =
      .ok revision := revised
  rw [unlimited] at paired
  obtain ⟨limited, revisedLimited, cutsOff⟩ := paired.exists_left
  obtain ⟨unresolved, kept⟩ := cutsOff.beyond removed contracted exceeds
  exact ⟨revision, removed, limited, revised, contracted, revisedLimited, unresolved, kept⟩

end Revision
end BeliefRevision
