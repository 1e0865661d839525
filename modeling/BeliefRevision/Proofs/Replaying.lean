import BeliefRevision.Proofs.Postulates

/-!
# The account of a revision

The steps of a revision, its outcome and the base it leaves are made apart from each other:
beliefs are taken out by index and reported by text. The steps are nevertheless a full
account. Taken as orders and carried out on the former base one after another, they lead to
the base which the revision leaves, and there is a change among them exactly when the two
bases differ.

Orders name beliefs by text. This is why no text may be there twice, and why none may have
blanks at its ends, which are trimmed from an order.
-/

namespace BeliefRevision

namespace Base

/-- The texts of the beliefs have no blanks at their ends, and no text is there twice. -/
structure HasProperTexts (base : Base) : Prop where
  trimmed : ∀ text ∈ base.texts, Text.trim text = text
  distinct : base.texts.Nodup

/-- The base after what the step reports. What was added is the belief made of its text. The
other kinds of steps report no change. -/
def follow (base : Base) (step : Step) : Except FormulaError Base :=
  match step.kind with
  | .removed => .ok (base.remove step.belief)
  | .added =>
    match Belief.ofText step.belief with
    | .error cause => .error cause
    | .ok belief => .ok (base.push belief)
  | .alreadyExists => .ok base
  | .alreadyEntailed => .ok base
  | .conflictDetected => .ok base
  | .unresolved => .ok base

/-- The base after all of the steps, one after another. -/
def replay (base : Base) (steps : List Step) : Except FormulaError Base :=
  steps.foldlM follow base

/-- Where no text is there twice, the first belief with a text is the only one. -/
theorem remove_eq_filter {base : Base} (distinct : base.texts.Nodup) (text : String) :
    (base.remove text).beliefs =
      base.beliefs.filter fun belief => belief.text ≠ Text.trim text := by
  obtain ⟨beliefs⟩ := base
  induction beliefs with
  | nil => rfl
  | cons head tail inductionHypothesis =>
    obtain ⟨absent, tailDistinct⟩ := List.nodup_cons.mp distinct
    by_cases same : head.text = Text.trim text
    · have others : ∀ belief ∈ tail, belief.text ≠ Text.trim text := by
        intro belief member sameText
        exact absent (List.mem_map.mpr ⟨belief, member, sameText.trans same.symm⟩)
      have kept : tail.filter (fun belief => belief.text ≠ Text.trim text) = tail :=
        List.filter_eq_self.mpr fun belief member => decide_eq_true (others belief member)
      simp only [remove, List.eraseP_cons, List.filter_cons, same, kept, beq_self_eq_true,
        cond_true, ne_eq, not_true_eq_false, decide_false, Bool.false_eq_true, if_false]
    · have rest := inductionHypothesis tailDistinct
      simp only [remove] at rest
      simp [remove, same, rest]

/-- Removal takes beliefs out and lets no text come twice. -/
theorem texts_remove_nodup {base : Base} (distinct : base.texts.Nodup) (text : String) :
    (base.remove text).texts.Nodup :=
  distinct.sublist (List.eraseP_sublist.map Belief.text)

/-- Where no text is there twice, taking out texts one after another leaves the beliefs with
other texts. -/
theorem foldl_remove_eq_filter {base : Base} (distinct : base.texts.Nodup) {texts : List String}
    (trimmed : ∀ text ∈ texts, Text.trim text = text) :
    (texts.foldl remove base).beliefs = base.beliefs.filter fun belief => belief.text ∉ texts := by
  induction texts generalizing base with
  | nil => simp
  | cons text texts inductionHypothesis =>
    have rest := inductionHypothesis (texts_remove_nodup distinct text)
      fun other member => trimmed other (List.mem_cons_of_mem text member)
    have same : Text.trim text = text := trimmed text List.mem_cons_self
    rw [List.foldl_cons, rest, remove_eq_filter distinct, same, List.filter_filter]
    refine List.filter_congr fun belief _ => ?_
    simp [Bool.and_comm]

/-- Reports of removal take out their texts, before the steps which follow. -/
theorem replay_removed (base : Base) (texts : List String) (rest : List Step) :
    base.replay (texts.map (⟨.removed, ·⟩) ++ rest) = (texts.foldl remove base).replay rest := by
  induction texts generalizing base with
  | nil => rfl
  | cons text texts inductionHypothesis => exact inductionHypothesis (base.remove text)

/-- A report of addition puts the belief made of the text last. -/
theorem replay_added {base : Base} {text : String} {belief : Belief}
    (made : Belief.ofText text = .ok belief) :
    base.replay [⟨.added, text⟩] = .ok (base.push belief) := by
  simp only [replay, List.foldlM_cons, List.foldlM_nil, follow, made]
  rfl

/-- Beliefs looked up in ascending order are reported in the order of the base. -/
theorem texts_of_ascending {base : Base} {collection : List Nat}
    (ascending : collection.Pairwise (· < ·)) (inside : ∀ index ∈ collection, index < base.size) :
    ((collection.filterMap base.get?).map Belief.text).Sublist base.texts := by
  have chosen : collection.Sublist (List.range base.size) :=
    sublist_range_iff.mpr ⟨ascending, inside⟩
  have all : (List.range base.size).filterMap base.get? = base.beliefs := by
    have found : (List.range base.size).map base.get? = base.beliefs.map some :=
      List.ext_getElem (by simp [size]) (by simp [get?])
    calc
      (List.range base.size).filterMap base.get? =
          ((List.range base.size).map base.get?).filterMap id := by
        rw [List.filterMap_map]
        rfl
      _ = (base.beliefs.map some).filterMap id := by rw [found]
      _ = base.beliefs := by simp
  have beliefs := chosen.filterMap base.get?
  rw [all] at beliefs
  exact beliefs.map Belief.text

end Base

namespace Revision

/-- The steps which a revision of the base may report with its outcome. The text is that of
the new belief, and the texts removed are those of some beliefs, in the order of the base. -/
inductive Accounts (base : Base) (text : String) : Outcome → List Step → Prop where
  | duplicate : Accounts base text .duplicate [⟨.alreadyExists, text⟩]
  | entailed : Accounts base text .entailed [⟨.alreadyEntailed, text⟩]
  | expanded : Accounts base text .expanded [⟨.added, text⟩]
  | contracted {removed : List String} (nonempty : removed ≠ [])
      (inOrder : removed.Sublist base.texts) :
      Accounts base text (.contracted removed)
        (⟨.conflictDetected, text⟩ :: removed.map (⟨.removed, ·⟩) ++ [⟨.added, text⟩])
  | unresolved :
      Accounts base text .unresolved [⟨.conflictDetected, text⟩, ⟨.unresolved, text⟩]

variable {settings : Settings} {base : Base} {text : String} {formula : Formula}
  {revision : Revision}

/-- What is found is reported, at least one belief and all in the order of the base. -/
theorem removed_of_find? {belief : Belief} {collection : List Nat}
    (found : Contraction.find? settings base belief = some collection) :
    (collection.filterMap base.get?).map Belief.text ≠ [] ∧
      ((collection.filterMap base.get?).map Belief.text).Sublist base.texts := by
  have room := Contraction.makesRoom_of_find? found
  refine ⟨?_, Base.texts_of_ascending (Contraction.ascending_of_find? found) room.inside⟩
  obtain ⟨index, member⟩ := List.exists_mem_of_length_pos room.nonempty
  have inside : index < base.beliefs.length := room.inside index member
  have here : base.get? index = some base.beliefs[index] := List.getElem?_eq_getElem inside
  have looked := List.mem_filterMap.mpr ⟨index, member, here⟩
  exact List.ne_nil_of_mem (List.mem_map_of_mem looked)

/-- Each ending of a revision reports the steps which belong to its outcome. -/
theorem Ends.accounts (ends : Ends settings base text formula revision) :
    Accounts base (Text.trim text) revision.outcome revision.steps := by
  cases ends with
  | duplicate => exact .duplicate
  | entailed => exact .entailed
  | expanded => exact .expanded
  | contracted _ _ found =>
    obtain ⟨nonempty, inOrder⟩ := removed_of_find? found
    exact .contracted nonempty inOrder
  | unresolved => exact .unresolved

/-- Where the texts are proper, giving up a collection by index is taking out its texts. -/
theorem foldl_remove_eq_without (proper : base.HasProperTexts) {collection : List Nat}
    (inOrder : ((collection.filterMap base.get?).map Belief.text).Sublist base.texts) :
    ((collection.filterMap base.get?).map Belief.text).foldl Base.remove base =
      base.without collection := by
  have trimmed := fun text member => proper.trimmed text (inOrder.subset member)
  have beliefs := Base.foldl_remove_eq_filter proper.distinct trimmed
  rw [← Base.without_eq_filter proper.distinct] at beliefs
  exact congrArg Base.mk beliefs

/-- Each ending reports steps which lead from the former base to the one which it leaves. -/
theorem Ends.replay (proper : base.HasProperTexts)
    (parsed : Formula.parse (Text.trim text) = .ok formula)
    (ends : Ends settings base text formula revision) :
    base.replay revision.steps = .ok revision.base := by
  have made : Belief.ofText (Text.trim text) = .ok (.ofNormalForm (Text.trim text) formula) :=
    Belief.ofText_of_parse (by rwa [Text.trim_trim])
  cases ends with
  | duplicate => rfl
  | entailed => rfl
  | expanded => exact Base.replay_added made
  | @contracted _ _ collection found =>
    obtain ⟨_, inOrder⟩ := removed_of_find? found
    have taken := base.replay_removed ((collection.filterMap base.get?).map Belief.text)
      [⟨.added, Text.trim text⟩]
    rw [foldl_remove_eq_without proper inOrder, Base.replay_added made] at taken
    exact taken
  | unresolved => rfl

/-- A new text is among the texts of the base to which a belief with the text was added. -/
theorem push_ne_of_fresh {kept : Base} (subset : kept.texts ⊆ base.texts)
    (fresh : Text.trim text ∉ base.texts) :
    kept.push (.ofNormalForm (Text.trim text) formula) ≠ base := by
  intro same
  have added : Text.trim text ∈ (kept.push (.ofNormalForm (Text.trim text) formula)).texts := by
    rw [Base.push_of_fresh fun inside => fresh (subset inside)]
    simp [Base.texts, Belief.ofNormalForm]
  rw [same] at added
  exact fresh added

/-- Each ending says of itself that it changed the base exactly where it did. -/
theorem Ends.changed_iff (ends : Ends settings base text formula revision) :
    revision.changed = true ↔ revision.base ≠ base := by
  cases ends with
  | duplicate | entailed | unresolved => simp [changed, Outcome.isChange]
  | expanded fresh =>
    exact iff_of_true rfl (push_ne_of_fresh (List.Subset.refl _) fresh)
  | @contracted fresh _ collection _ =>
    exact iff_of_true rfl (push_ne_of_fresh (base.texts_without_subset collection) fresh)

/-- A revision gives a faithful account of itself. Its steps are those which belong to its
outcome, they lead from the base to the base it leaves, and it counts as a change exactly when
the two differ. -/
theorem revise_accounts (proper : base.HasProperTexts)
    (revised : revise settings base text = .ok revision) :
    Accounts base (Text.trim text) revision.outcome revision.steps ∧
      base.replay revision.steps = .ok revision.base ∧
      (revision.changed = true ↔ revision.base ≠ base) := by
  obtain ⟨formula, parsed⟩ := parse_of_revise revised
  have ends := ends_of_revise parsed revised
  exact ⟨ends.accounts, ends.replay proper parsed, ends.changed_iff⟩

/-- Of three beliefs in contradiction some are given up, and the account leads to the rest. -/
theorem revise_accounts_contradiction :
    contradictoryBase.HasProperTexts ∧
      ∃ revision removed, revise {} contradictoryBase " ¬(P∨Q) " = .ok revision ∧
        revision.outcome = .contracted removed ∧
        Accounts contradictoryBase "¬(P∨Q)" revision.outcome revision.steps ∧
        contradictoryBase.replay revision.steps = .ok revision.base ∧
        (revision.changed = true ↔ revision.base ≠ contradictoryBase) := by
  have proper : contradictoryBase.HasProperTexts := ⟨by decide, by decide⟩
  have trimmed : Text.trim " ¬(P∨Q) " = "¬(P∨Q)" := by decide
  obtain ⟨revision, removed, revised, contracted⟩ := contracted_contradictory
  have accounts := revise_accounts proper revised
  rw [trimmed] at accounts
  exact ⟨proper, revision, removed, revised, contracted, accounts⟩

end Revision
end BeliefRevision
