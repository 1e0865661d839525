import BeliefRevision.Proofs.NormalForm

/-!
# Rewriting in any order

The passes are made in one order to reach a normal form. What each of them keeps does
not depend on that order: on every formula, also on one which an earlier pass would have
changed, a pass keeps the truth value under every assignment and brings in no atom. The
same is therefore true of any passes one after another, with repeats and omissions.
-/

namespace BeliefRevision.Formula

/-- The atoms of two parts are among those of two others if each part keeps to its own. -/
theorem append_subset_append {first second firstOthers secondOthers : List Atom}
    (firstKept : first ⊆ firstOthers) (secondKept : second ⊆ secondOthers) :
    first ++ second ⊆ firstOthers ++ secondOthers :=
  List.append_subset.mpr ⟨List.subset_append_of_subset_left secondOthers firstKept,
    List.subset_append_of_subset_right firstOthers secondKept⟩

/-- An arrow is replaced by what has its two operands only, and so by no new atom. -/
theorem occurrences_eliminateArrows_subset (formula : Formula) :
    formula.eliminateArrows.occurrences ⊆ formula.occurrences := by
  induction formula with
  | top | bottom | atom _ => exact List.Subset.refl _
  | not operand inductionHypothesis => exact inductionHypothesis
  | binary connective left right leftHypothesis rightHypothesis =>
    have inLeft := List.subset_append_of_subset_left right.occurrences leftHypothesis
    have inRight := List.subset_append_of_subset_right left.occurrences rightHypothesis
    cases connective <;>
      simp only [eliminateArrows, occurrences, List.append_subset, inLeft, inRight, and_self]

/-- Folding a negation brings in no atom. -/
theorem occurrences_foldNot_subset (operand : Formula) :
    (foldNot operand).occurrences ⊆ operand.occurrences := by
  unfold foldNot
  split <;> simp [occurrences]

/-- Folding a conjunction may drop an operand, and brings in no atom. -/
theorem occurrences_foldAnd_subset (left right : Formula) :
    (foldAnd left right).occurrences ⊆ left.occurrences ++ right.occurrences := by
  unfold foldAnd
  split <;> simp [occurrences]

/-- Folding a disjunction does the same. -/
theorem occurrences_foldOr_subset (left right : Formula) :
    (foldOr left right).occurrences ⊆ left.occurrences ++ right.occurrences := by
  unfold foldOr
  split <;> simp [occurrences]

/-- Atoms beside a constant may vanish. None comes in. -/
theorem occurrences_foldConstants_subset (formula : Formula) :
    formula.foldConstants.occurrences ⊆ formula.occurrences := by
  induction formula with
  | top | bottom | atom _ => exact List.Subset.refl _
  | not operand inductionHypothesis =>
    exact List.Subset.trans (occurrences_foldNot_subset _) inductionHypothesis
  | binary connective left right leftHypothesis rightHypothesis =>
    have operands := append_subset_append leftHypothesis rightHypothesis
    cases connective with
    | and => exact List.Subset.trans (occurrences_foldAnd_subset _ _) operands
    | or => exact List.Subset.trans (occurrences_foldOr_subset _ _) operands
    | implies | iff => exact List.Subset.refl _

/-- Either sign keeps to the atoms, for all operands at once. -/
theorem occurrences_signed_subset (positive : Bool) (formula : Formula) :
    (formula.signed positive).occurrences ⊆ formula.occurrences := by
  induction formula generalizing positive with
  | top | bottom | atom _ => cases positive <;> exact List.Subset.refl _
  | not operand inductionHypothesis => exact inductionHypothesis !positive
  | binary connective left right leftHypothesis rightHypothesis =>
    have inLeft (sign : Bool) :=
      List.subset_append_of_subset_left right.occurrences (leftHypothesis sign)
    have inRight (sign : Bool) :=
      List.subset_append_of_subset_right left.occurrences (rightHypothesis sign)
    cases connective <;> cases positive <;>
      simp [signed, occurrences, List.append_subset, inLeft, inRight]

/-- The left formula is repeated beside each conjunct of the right one. -/
theorem occurrences_disjoinRight_subset (left right : Formula) :
    (disjoinRight left right).occurrences ⊆ left.occurrences ++ right.occurrences := by
  fun_induction disjoinRight left right with
  | case1 first second firstHypothesis secondHypothesis =>
    refine List.append_subset.mpr ⟨?_, ?_⟩
    · exact List.Subset.trans firstHypothesis (by simp [occurrences])
    · exact List.Subset.trans secondHypothesis (by simp [occurrences])
  | case2 right _ => exact List.Subset.refl _

/-- Distributing over the conjunctions of both sides repeats atoms, and brings in none. -/
theorem occurrences_disjoin_subset (left right : Formula) :
    (disjoin left right).occurrences ⊆ left.occurrences ++ right.occurrences := by
  fun_induction disjoin left right with
  | case1 first second right firstHypothesis secondHypothesis =>
    refine List.append_subset.mpr ⟨?_, ?_⟩
    · exact List.Subset.trans firstHypothesis (by simp [occurrences])
    · exact List.Subset.trans secondHypothesis (by simp [occurrences])
  | case2 left right _ => exact occurrences_disjoinRight_subset left right

/-- Distribution as a whole brings in no atom. -/
theorem occurrences_distribute_subset (formula : Formula) :
    formula.distribute.occurrences ⊆ formula.occurrences := by
  fun_induction distribute formula with
  | case1 left right leftHypothesis rightHypothesis =>
    exact append_subset_append leftHypothesis rightHypothesis
  | case2 left right leftHypothesis rightHypothesis =>
    exact List.Subset.trans (occurrences_disjoin_subset _ _)
      (append_subset_append leftHypothesis rightHypothesis)
  | case3 formula _ _ => exact List.Subset.refl _

/-- The second formula is true under the assignments under which the first is, and has
no atom besides those of the first. -/
structure Keeps (before after : Formula) : Prop where
  meaning : ∀ truth, after.eval truth = before.eval truth
  atoms : after.occurrences ⊆ before.occurrences

/-- A formula keeps what it means and its atoms where nothing is done. -/
theorem Keeps.refl (formula : Formula) : Keeps formula formula :=
  ⟨fun _ => rfl, List.Subset.refl _⟩

/-- What two rewritings keep one after another, both keep together. -/
theorem Keeps.trans {first second third : Formula} (earlier : Keeps first second)
    (later : Keeps second third) : Keeps first third where
  meaning := fun truth => (later.meaning truth).trans (earlier.meaning truth)
  atoms := List.Subset.trans later.atoms earlier.atoms

/-- Writing arrows out keeps the meaning and brings in no atom. -/
theorem keeps_eliminateArrows (formula : Formula) : Keeps formula formula.eliminateArrows :=
  ⟨fun truth => eval_eliminateArrows truth formula, occurrences_eliminateArrows_subset formula⟩

/-- Folding constants keeps the meaning and brings in no atom. -/
theorem keeps_foldConstants (formula : Formula) : Keeps formula formula.foldConstants :=
  ⟨fun truth => eval_foldConstants truth formula, occurrences_foldConstants_subset formula⟩

/-- Pushing negations down keeps the meaning and brings in no atom. -/
theorem keeps_pushNegations (formula : Formula) : Keeps formula formula.pushNegations :=
  ⟨fun truth => eval_pushNegations truth formula, occurrences_signed_subset true formula⟩

/-- Distribution keeps the meaning and brings in no atom. -/
theorem keeps_distribute (formula : Formula) : Keeps formula formula.distribute :=
  ⟨fun truth => eval_distribute truth formula, occurrences_distribute_subset formula⟩

/-- So do the four passes together, which make the normal form. -/
theorem keeps_cnf (formula : Formula) : Keeps formula formula.cnf := by
  have folded := (keeps_eliminateArrows formula).trans (keeps_foldConstants _)
  have pushed := folded.trans (keeps_pushNegations _)
  exact pushed.trans (keeps_distribute _)

/-- One pass keeps the meaning and the atoms of whatever formula it meets. -/
theorem Pass.keeps (pass : Pass) (formula : Formula) : Keeps formula (pass.apply formula) := by
  cases pass with
  | eliminateArrows => exact keeps_eliminateArrows formula
  | foldConstants => exact keeps_foldConstants formula
  | pushNegations => exact keeps_pushNegations formula
  | distribute => exact keeps_distribute formula
  | cnf => exact keeps_cnf formula

/-- The formula after the passes, one after another. -/
def rewrite (passes : List Pass) (formula : Formula) : Formula :=
  passes.foldl (fun formula pass => pass.apply formula) formula

/-- What each pass keeps, all of them keep. -/
theorem keeps_rewrite (passes : List Pass) (formula : Formula) :
    Keeps formula (rewrite passes formula) := by
  induction passes generalizing formula with
  | nil => exact .refl formula
  | cons pass passes inductionHypothesis =>
    exact (pass.keeps formula).trans (inductionHypothesis (pass.apply formula))

/-- Any passes in any order leave a formula with the same truth value under every
assignment and with no atom which was not there before. -/
theorem rewrite_sound (passes : List Pass) (formula : Formula) :
    (∀ truth, (rewrite passes formula).eval truth = formula.eval truth) ∧
      (rewrite passes formula).atoms.elements ⊆ formula.atoms.elements := by
  have keeps := keeps_rewrite passes formula
  refine ⟨keeps.meaning, ?_⟩
  intro leaf member
  exact SortedSet.mem_ofList.mpr (keeps.atoms (SortedSet.mem_ofList.mp member))

end BeliefRevision.Formula
