import BeliefRevision.Proofs.BaseChange

/-!
# What a revision takes in and what it gives up

A formula which is true under some assignment is taken in whatever the base holds, as
long as nothing limits the search: at worst all beliefs are given up for it. Whichever
way the revision ends, the formula follows from the base it leaves.

Beliefs are given up only where the base entails the negation of the formula. What is
left does not entail it, and each belief given up was in the way: with that one alone
put back at its place the negation follows again. This comes from the order in which
collections are tried, as all smaller ones have failed before.
-/

namespace BeliefRevision

namespace Base

/-- Giving up every belief leaves none. -/
theorem without_range (base : Base) : base.without (List.range base.size) = .empty := by
  have none : base.beliefs.zipIdx.filter
      (fun entry => !(List.range base.size).contains entry.2) = [] := by
    rw [List.filter_eq_nil_iff]
    rintro ⟨belief, index⟩ member
    have inside : index < base.beliefs.length := by
      simpa using List.snd_lt_of_mem_zipIdx member
    simpa [size] using inside
  rw [without, none]
  rfl

/-- Where no text is there twice, a belief has the text of a member of the collection
exactly when it is a member itself. -/
theorem text_mem_iff {base : Base} (distinct : base.texts.Nodup) {collection : List Nat}
    {index : Nat} {belief : Belief} (here : base.get? index = some belief) :
    belief.text ∈ (collection.filterMap base.get?).map Belief.text ↔ index ∈ collection := by
  have text {place : Nat} {other : Belief} (there : base.get? place = some other) :
      base.texts[place]? = some other.text := by
    have there : base.beliefs[place]? = some other := there
    simp [texts, there]
  rw [List.mem_map]
  constructor
  · rintro ⟨other, member, same⟩
    obtain ⟨place, given, there⟩ := List.mem_filterMap.mp member
    have texts : base.texts[place]? = base.texts[index]? := by
      rw [text there, text here, same]
    have inside : place < base.texts.length := (List.getElem?_eq_some_iff.mp (text there)).1
    exact (List.getElem?_inj inside distinct).mp texts ▸ given
  · intro given
    exact ⟨belief, List.mem_filterMap.mpr ⟨index, given, here⟩, rfl⟩

/-- Where no text is there twice, giving up a collection is giving up the beliefs which
have the texts of its members. -/
theorem without_eq_filter {base : Base} (distinct : base.texts.Nodup) (collection : List Nat) :
    (base.without collection).beliefs = base.beliefs.filter fun belief =>
      belief.text ∉ (collection.filterMap base.get?).map Belief.text := by
  have kept : ∀ entry ∈ base.beliefs.zipIdx, (!collection.contains entry.2) =
      decide (entry.1.text ∉ (collection.filterMap base.get?).map Belief.text) := by
    rintro ⟨belief, index⟩ member
    have here : base.get? index = some belief := List.mk_mem_zipIdx_iff_getElem?.mp member
    simp [text_mem_iff distinct here]
  calc
    (base.without collection).beliefs =
        (base.beliefs.zipIdx.filter fun entry =>
          entry.1.text ∉ (collection.filterMap base.get?).map Belief.text).map Prod.fst := by
      rw [without, List.filter_congr kept]
    _ = (base.beliefs.zipIdx.map Prod.fst).filter fun belief =>
          belief.text ∉ (collection.filterMap base.get?).map Belief.text := by
      rw [List.filter_map]
      rfl
    _ = _ := by rw [List.zipIdx_map_fst]

/-- A collection of beliefs without which the base does not entail the negation of the
formula. With any one of them put back at its place, it does. -/
structure MinimalRemoval (base : Base) (formula : Formula) (collection : List Nat) : Prop where
  ascending : collection.Pairwise (· < ·)
  inside : ∀ index ∈ collection, index < base.size
  survives : ∀ pruning, Entailment.entails pruning (base.without collection).clauseSets
    (.not formula) = .ok false
  needed : ∀ index ∈ collection, ∀ pruning,
    Entailment.entails pruning (base.without (collection.erase index)).clauseSets
      (.not formula) = .ok true

end Base

namespace Contraction

/-- A formula which the base does not admit is not admitted either by what the search
left of it and one belief more. The rest of the collection would make room if it did,
and be smaller than what was found, or else be empty. -/
theorem not_admits_erase {settings : Settings} {base : Base} {text : String} {formula : Formula}
    {collection : List Nat} {index : Nat} (contradicts : ¬ base.Admits formula)
    (found : find? settings base (.ofNormalForm text formula) = some collection)
    (member : index ∈ collection) : ¬ (base.without (collection.erase index)).Admits formula := by
  intro admitted
  have makesRoom := makesRoom_of_find? found
  have shorter : (collection.erase index).length + 1 = collection.length :=
    List.length_erase_add_one member
  by_cases isEmpty : collection.erase index = []
  · rw [isEmpty, base.without_nil] at admitted
    exact contradicts admitted
  · have rest : MakesRoom settings base (.ofNormalForm text formula) (collection.erase index) := by
      refine ⟨makesRoom.distinct.erase index, ?_, List.length_pos_iff.mpr isEmpty, ?_, ?_⟩
      · exact fun other kept => makesRoom.inside other (List.mem_of_mem_erase kept)
      · have limited := makesRoom.limited
        omega
      · simpa only [Base.Admits, Belief.eval_ofNormalForm] using admitted
    have least := length_le_of_find? found rest
    omega

/-- What the search finds for a formula which the base does not admit is minimal. -/
theorem minimalRemoval_of_find? {settings : Settings} {base : Base} {text : String}
    {formula : Formula} {collection : List Nat} (contradicts : ¬ base.Admits formula)
    (found : find? settings base (.ofNormalForm text formula) = some collection) :
    base.MinimalRemoval formula collection where
  ascending := ascending_of_find? found
  inside := (makesRoom_of_find? found).inside
  survives := by
    have admitted : (base.without collection).Admits formula := by
      simpa only [Base.Admits, Belief.eval_ofNormalForm] using (makesRoom_of_find? found).admits
    intro pruning
    simp [Base.entails_not_iff, admitted]
  needed := by
    intro index member pruning
    simp [Base.entails_not_iff, not_admits_erase contradicts found member]

end Contraction

namespace Revision

/-- Where nothing limits the search, all beliefs can be given up for a formula which is
true under some assignment. -/
theorem contractible_of_unlimited {settings : Settings} {base : Base} {formula : Formula}
    (unlimited : settings.contractionLimit = none)
    (satisfiable : ∃ truth, formula.eval truth = true) (contradicts : ¬ base.Admits formula) :
    Contractible settings base formula := by
  obtain ⟨truth, holds⟩ := satisfiable
  have admitted : (base.without (List.range base.size)).Admits formula := by
    rw [base.without_range]
    exact ⟨truth, rfl, holds⟩
  have nonempty : base.size ≠ 0 := by
    intro isEmpty
    rw [isEmpty, List.range_zero, base.without_nil] at admitted
    exact contradicts admitted
  refine ⟨List.range base.size, List.nodup_range, fun _ => List.mem_range.mp, ?_, ?_, admitted⟩
  · rw [List.length_range]
    omega
  · simp [Contraction.limit, unlimited]

/-- A formula follows from the base to which a belief in it is added. -/
theorem entails_push {base : Base} {text : String} {formula : Formula}
    (fresh : Text.trim text ∉ base.texts) :
    (base.push (.ofNormalForm (Text.trim text) formula)).Entails formula := by
  rw [Base.push_of_fresh fresh]
  refine Base.entails_of_mem (List.mem_append_right _ (List.mem_singleton.mpr rfl)) ?_
  exact fun truth => Belief.eval_ofNormalForm truth (Text.trim text) formula

/-- A formula follows from beliefs one of which was made of the text that it is written
in. The texts of beliefs which are made are their own formulas. -/
theorem entails_of_text_mem {base : Base} {text : String} {formula : Formula}
    (made : ∀ belief ∈ base.beliefs, ∃ entered, Belief.ofText entered = .ok belief)
    (parsed : Formula.parse (Text.trim text) = .ok formula)
    (present : Text.trim text ∈ base.texts) : base.Entails formula := by
  obtain ⟨belief, member, same⟩ := List.mem_map.mp present
  obtain ⟨entered, given⟩ := made belief member
  obtain ⟨other, parsedOther, rfl⟩ := Belief.ofText_eq_ok_iff.mp given
  rw [show Text.trim entered = Text.trim text from same, parsed] at parsedOther
  cases parsedOther
  exact Base.entails_of_mem member fun truth => Belief.eval_ofNormalForm truth _ formula

/-- Success: where nothing limits the search, a formula which some assignment makes true
is revised by without ending unresolved, and follows from the base which results. The
beliefs may contradict each other, but each has to mean what its text says. -/
theorem revise_succeeds {settings : Settings} {base : Base} {text : String} {formula : Formula}
    (made : ∀ belief ∈ base.beliefs, ∃ entered, Belief.ofText entered = .ok belief)
    (unlimited : settings.contractionLimit = none)
    (parsed : Formula.parse (Text.trim text) = .ok formula)
    (satisfiable : ∃ truth, formula.eval truth = true) :
    ∃ revision, revise settings base text = .ok revision ∧
      revision.outcome ≠ .unresolved ∧ revision.base.Entails formula := by
  obtain ⟨revision, revised, ends⟩ := revise_ends settings base parsed
  refine ⟨revision, revised, ?_⟩
  cases ends with
  | duplicate present => exact ⟨by simp, entails_of_text_mem made parsed present⟩
  | entailed _ _ _ follows => exact ⟨by simp, follows⟩
  | expanded fresh => exact ⟨by simp, entails_push fresh⟩
  | @contracted fresh _ collection =>
    have left := fun kept => fresh (base.texts_without_subset collection kept)
    exact ⟨by simp, entails_push left⟩
  | unresolved _ contradicts noRoom =>
    exact absurd (contractible_of_unlimited unlimited satisfiable contradicts) noRoom

/-- Three beliefs, two of which contradict each other. -/
def contradictoryBase : Base :=
  ⟨[.ofNormalForm "P" (.atom ⟨"P", by decide⟩), .ofNormalForm "¬P" (.not (.atom ⟨"P", by decide⟩)),
    .ofNormalForm "Q" (.atom ⟨"Q", by decide⟩)]⟩

/-- A formula which contradicts the first of the three beliefs and the last. -/
def neitherFormula : Formula := .not (.or (.atom ⟨"P", by decide⟩) (.atom ⟨"Q", by decide⟩))

/-- The text is parsed with its blanks taken off, and with the negation of the whole in parentheses.
-/
theorem parse_neither : Formula.parse (Text.trim " ¬(P∨Q) ") = .ok neitherFormula := by cbv

/-- Each of the three beliefs is made from a text, although they are inconsistent together. -/
theorem made_contradictory :
    ∀ belief ∈ contradictoryBase.beliefs, ∃ entered, Belief.ofText entered = .ok belief := by
  have first : Formula.parse (Text.trim "P") = .ok (.atom ⟨"P", by decide⟩) := by cbv
  have second : Formula.parse (Text.trim "¬P") = .ok (.not (.atom ⟨"P", by decide⟩)) := by cbv
  have third : Formula.parse (Text.trim "Q") = .ok (.atom ⟨"Q", by decide⟩) := by cbv
  intro belief member
  simp only [contradictoryBase, List.mem_cons, List.not_mem_nil, or_false] at member
  rcases member with rfl | rfl | rfl
  · exact ⟨"P", Belief.ofText_of_parse first⟩
  · exact ⟨"¬P", Belief.ofText_of_parse second⟩
  · exact ⟨"Q", Belief.ofText_of_parse third⟩

/-- The first two beliefs of the base are never true together. -/
theorem not_satisfiable_contradictory : ¬ contradictoryBase.clauses.Satisfiable := by
  rintro ⟨truth, holds⟩
  have values := Base.eval_clauses_iff.mp holds
  simp only [contradictoryBase, List.forall_mem_cons, Belief.eval_ofNormalForm,
    Formula.eval] at values
  simp [values.1] at values

/-- Two beliefs stand in the way of the formula, and so some beliefs are given up for it. -/
theorem contracted_contradictory :
    ∃ revision removed, revise {} contradictoryBase " ¬(P∨Q) " = .ok revision ∧
      revision.outcome = .contracted removed := by
  have contradicts : ¬ contradictoryBase.Admits neitherFormula := fun ⟨truth, holds, _⟩ =>
    not_satisfiable_contradictory ⟨truth, holds⟩
  have room : Contractible {} contradictoryBase neitherFormula :=
    ⟨[0, 2], by decide, by decide, by decide, by decide, fun _ => false, rfl, rfl⟩
  exact contracted_of_contractible parse_neither (by decide) contradicts room

/-- The formula is taken in although the base holds a contradiction. -/
theorem revise_succeeds_contradiction :
    ¬ contradictoryBase.clauses.Satisfiable ∧
      ∃ revision, revise {} contradictoryBase " ¬(P∨Q) " = .ok revision ∧
        revision.outcome ≠ .unresolved ∧ revision.base.Entails neitherFormula :=
  ⟨not_satisfiable_contradictory,
    revise_succeeds made_contradictory rfl parse_neither ⟨fun _ => false, rfl⟩⟩

/-- Levi identity and relevance: a revision which gives beliefs up takes out a minimal
removal, leaves the other beliefs as they are and in order, and puts the new belief last.
Where no text is there twice, the texts reported tell which beliefs were taken out. -/
theorem contracted_relevant {settings : Settings} {base : Base} {text : String}
    {formula : Formula} {revision : Revision} {removed : List String}
    (parsed : Formula.parse (Text.trim text) = .ok formula)
    (revised : revise settings base text = .ok revision)
    (contracted : revision.outcome = .contracted removed) :
    ∃ belief collection, Belief.ofText text = .ok belief ∧
      base.MinimalRemoval formula collection ∧
      removed = (collection.filterMap base.get?).map Belief.text ∧
      (base.texts.Nodup → (base.without collection).beliefs =
        base.beliefs.filter fun other => other.text ∉ removed) ∧
      revision.base = ⟨(base.without collection).beliefs ++ [belief]⟩ := by
  cases ends_of_revise parsed revised with
  | duplicate => cases contracted
  | entailed => cases contracted
  | expanded => cases contracted
  | @contracted fresh contradicts collection found =>
    cases contracted
    refine ⟨.ofNormalForm text formula, collection, Belief.ofText_of_parse parsed,
      Contraction.minimalRemoval_of_find? contradicts found, rfl,
      fun distinct => Base.without_eq_filter distinct collection, ?_⟩
    have left := fun kept => fresh (base.texts_without_subset collection kept)
    rw [Base.push_of_fresh left, Belief.ofNormalForm_trim]
  | unresolved => cases contracted

/-- The search ends with one of the removals that are minimal for the formula. -/
theorem contracted_relevant_contradiction :
    ∃ revision removed, revise {} contradictoryBase " ¬(P∨Q) " = .ok revision ∧
      revision.outcome = .contracted removed ∧
        ∃ belief collection, Belief.ofText " ¬(P∨Q) " = .ok belief ∧
          contradictoryBase.MinimalRemoval neitherFormula collection ∧
          removed = (collection.filterMap contradictoryBase.get?).map Belief.text ∧
          (contradictoryBase.texts.Nodup → (contradictoryBase.without collection).beliefs =
            contradictoryBase.beliefs.filter fun other => other.text ∉ removed) ∧
          revision.base = ⟨(contradictoryBase.without collection).beliefs ++ [belief]⟩ := by
  obtain ⟨revision, removed, revised, contracted⟩ := contracted_contradictory
  exact ⟨revision, removed, revised, contracted,
    contracted_relevant parse_neither revised contracted⟩

end Revision
end BeliefRevision
