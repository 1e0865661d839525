import BeliefRevision.Proofs.Consequence
import BeliefRevision.Proofs.ContractionSearch
import BeliefRevision.Proofs.Trimming
import BeliefRevision.Revision.Basic

/-!
# How a revision ends

A text which parses is revised by without failure. What follows, what is admitted and
what makes room are all said with assignments, so that the outcome of a revision does
not depend on resolution, on either of the normal forms or on scores.
-/

namespace BeliefRevision

/-- A base is asked for a text in its trimmed form. -/
theorem Base.contains_iff {base : Base} {text : String} :
    base.contains text = true ↔ Text.trim text ∈ base.texts := by
  simp [contains, texts, List.any_eq_true]

namespace Revision

/-- Some beliefs, at least one and no more than the limit, can be given up so that the
base admits the formula. -/
def Contractible (settings : Settings) (base : Base) (formula : Formula) : Prop :=
  ∃ collection : List Nat, collection.Nodup ∧ (∀ index ∈ collection, index < base.size) ∧
    1 ≤ collection.length ∧ collection.length ≤ Contraction.limit settings base ∧
    (base.without collection).Admits formula

/-- A base admits the belief made of a formula exactly when it is consistent with the formula. -/
theorem admits_ofNormalForm {pruning : Bool} {base : Base} {text : String} {formula : Formula} :
    Contraction.admits pruning base (.ofNormalForm text formula) = true ↔ base.Admits formula := by
  simp only [Contraction.admits_iff, Base.Admits, Belief.eval_ofNormalForm]

/-- Some collection makes room for the belief made of a formula exactly when the base can be
contracted for the formula. -/
theorem makesRoom_ofNormalForm {settings : Settings} {base : Base} {text : String}
    {formula : Formula} :
    (∃ collection, Contraction.MakesRoom settings base (.ofNormalForm text formula) collection) ↔
      Contractible settings base formula := by
  constructor
  · rintro ⟨collection, distinct, inside, nonempty, limited, admits⟩
    refine ⟨collection, distinct, inside, nonempty, limited, ?_⟩
    simpa only [Base.Admits, Belief.eval_ofNormalForm] using admits
  · rintro ⟨collection, distinct, inside, nonempty, limited, admits⟩
    refine ⟨collection, distinct, inside, nonempty, limited, ?_⟩
    simpa only [Base.Admits, Belief.eval_ofNormalForm] using admits

/-- The base is asked for consistency first, and so a formula follows exactly when the
base is consistent and entails it. -/
theorem follows_verdict (settings : Settings) (base : Base) (formula : Formula) :
    ∃ verdict, follows settings base formula = .ok verdict ∧
      (verdict = true ↔ base.clauses.Satisfiable ∧ base.Entails formula) := by
  by_cases consistent : Resolution.isConsistent settings.tautologyPruning base.clauses = true
  · obtain ⟨verdict, given, exactly⟩ :=
      Entailment.entails_verdict settings.tautologyPruning [base.clauses] formula
    refine ⟨verdict, ?_, ?_⟩
    · rw [follows, if_pos consistent, given]
    · have satisfiable := Resolution.isConsistent_iff.mp consistent
      simpa [satisfiable, Base.Entails] using exactly
  · refine ⟨false, ?_, ?_⟩
    · rw [follows, if_neg consistent]
    · rw [Resolution.isConsistent_iff] at consistent
      simp [consistent]

section
variable {settings : Settings} {base : Base} {belief : Belief}

/-- A belief which the base admits is added. -/
theorem ofBelief_of_admits
    (admitted : Contraction.admits settings.tautologyPruning base belief = true) :
    ofBelief settings base belief = ⟨base.push belief, [⟨.added, belief.text⟩], .expanded⟩ := by
  simp only [ofBelief, admitted, if_true]

/-- A belief which the base contradicts is added in place of what the search finds. -/
theorem ofBelief_of_found {collection : List Nat}
    (contradicts : Contraction.admits settings.tautologyPruning base belief = false)
    (found : Contraction.find? settings base belief = some collection) :
    ofBelief settings base belief =
      ⟨(base.without collection).push belief,
        ⟨.conflictDetected, belief.text⟩ ::
          ((collection.filterMap base.get?).map Belief.text).map (⟨.removed, ·⟩) ++
          [⟨.added, belief.text⟩],
        .contracted ((collection.filterMap base.get?).map Belief.text)⟩ := by
  simp only [ofBelief, contradicts, found, Bool.false_eq_true, if_false]

/-- A belief which the base contradicts is not added where nothing is found. -/
theorem ofBelief_of_notFound
    (contradicts : Contraction.admits settings.tautologyPruning base belief = false)
    (notFound : Contraction.find? settings base belief = none) :
    ofBelief settings base belief =
      ⟨base, [⟨.conflictDetected, belief.text⟩, ⟨.unresolved, belief.text⟩], .unresolved⟩ := by
  simp only [ofBelief, contradicts, notFound, Bool.false_eq_true, if_false]

/-- Each belief which is found is reported by its text. -/
theorem length_texts_of_find? {collection : List Nat}
    (found : Contraction.find? settings base belief = some collection) :
    ((collection.filterMap base.get?).map Belief.text).length = collection.length := by
  rw [List.length_map, List.filterMap_length_eq_length]
  intro index member
  simpa [Base.get?, Base.size] using (Contraction.makesRoom_of_find? found).inside index member

end

/-- The three ways in which adding a belief ends. -/
theorem ofBelief_cases (settings : Settings) (base : Base) (belief : Belief) :
    (Contraction.admits settings.tautologyPruning base belief = true ∧
      ofBelief settings base belief =
        ⟨base.push belief, [⟨.added, belief.text⟩], .expanded⟩) ∨
    (Contraction.admits settings.tautologyPruning base belief = false ∧
      ∃ collection, Contraction.find? settings base belief = some collection ∧
        Contraction.MakesRoom settings base belief collection ∧
        ofBelief settings base belief =
          ⟨(base.without collection).push belief,
            ⟨.conflictDetected, belief.text⟩ ::
              ((collection.filterMap base.get?).map Belief.text).map (⟨.removed, ·⟩) ++
              [⟨.added, belief.text⟩],
            .contracted ((collection.filterMap base.get?).map Belief.text)⟩) ∨
    (Contraction.admits settings.tautologyPruning base belief = false ∧
      (¬ ∃ collection, Contraction.MakesRoom settings base belief collection) ∧
      ofBelief settings base belief =
        ⟨base, [⟨.conflictDetected, belief.text⟩, ⟨.unresolved, belief.text⟩], .unresolved⟩) := by
  cases admits : Contraction.admits settings.tautologyPruning base belief with
  | true =>
    left
    exact ⟨rfl, ofBelief_of_admits admits⟩
  | false =>
    right
    cases found : Contraction.find? settings base belief with
    | some collection =>
      left
      have makesRoom := Contraction.makesRoom_of_find? found
      exact ⟨rfl, collection, rfl, makesRoom, ofBelief_of_found admits found⟩
    | none =>
      right
      refine ⟨rfl, ?_, ofBelief_of_notFound admits found⟩
      rw [← Contraction.find?_isSome_iff, found]
      exact Bool.false_ne_true

/-- How a belief is added depends on the settings only through what the search finds. -/
theorem ofBelief_congr {settings others : Settings} {base : Base} {belief : Belief}
    (sameFound : Contraction.find? settings base belief = Contraction.find? others base belief) :
    ofBelief settings base belief = ofBelief others base belief := by
  have sameAdmits : Contraction.admits settings.tautologyPruning base belief =
      Contraction.admits others.tautologyPruning base belief :=
    Contraction.admits_congr (fun _ => rfl) base
  simp only [ofBelief, sameAdmits, sameFound]

/-- A text which does not parse is refused, whatever the base and the settings are. -/
theorem revise_of_refused {text : String} {cause : ParseError} (settings : Settings) (base : Base)
    (refused : Formula.parse (Text.trim text) = .error cause) :
    revise settings base text = .error (.parse cause) := by
  simp only [revise, refused]

/-- The three ways in which a revision by a text which parses goes on: the belief is
there, or it follows, or it is added with what the base may contradict. -/
theorem revise_cases {text : String} {formula : Formula} (settings : Settings) (base : Base)
    (parsed : Formula.parse (Text.trim text) = .ok formula) :
    (Text.trim text ∈ base.texts ∧
      revise settings base text =
        .ok ⟨base, [⟨.alreadyExists, Text.trim text⟩], .duplicate⟩) ∨
    (Text.trim text ∉ base.texts ∧
      (settings.entailmentCheck = true ∧ base.clauses.Satisfiable ∧ base.Entails formula) ∧
      revise settings base text =
        .ok ⟨base, [⟨.alreadyEntailed, Text.trim text⟩], .entailed⟩) ∨
    (Text.trim text ∉ base.texts ∧
      ¬ (settings.entailmentCheck = true ∧ base.clauses.Satisfiable ∧ base.Entails formula) ∧
      revise settings base text =
        .ok (ofBelief settings base (.ofNormalForm (Text.trim text) formula))) := by
  have repeated : base.contains (Text.trim text) = true ↔ Text.trim text ∈ base.texts := by
    rw [Base.contains_iff, Text.trim_trim]
  by_cases duplicate : Text.trim text ∈ base.texts
  · left
    refine ⟨duplicate, ?_⟩
    simp only [revise, parsed, Belief.ofFormula_eq, repeated.mpr duplicate, if_true]
  · right
    obtain ⟨verdict, given, exactly⟩ := follows_verdict settings base formula
    have fresh : base.contains (Text.trim text) = false := by
      rw [← Bool.not_eq_true, repeated]
      exact duplicate
    cases check : settings.entailmentCheck with
    | false =>
      right
      refine ⟨duplicate, by simp, ?_⟩
      simp only [revise, parsed, Belief.ofFormula_eq, fresh, check, Bool.false_eq_true, if_false]
    | true =>
      cases verdict with
      | true =>
        left
        refine ⟨duplicate, ⟨rfl, exactly.mp rfl⟩, ?_⟩
        simp only [revise, parsed, Belief.ofFormula_eq, fresh, check, given, Bool.false_eq_true,
          if_false, if_true]
      | false =>
        right
        refine ⟨duplicate, ?_, ?_⟩
        · rintro ⟨_, follows⟩
          exact Bool.false_ne_true (exactly.mpr follows)
        · simp only [revise, parsed, Belief.ofFormula_eq, fresh, check, given, Bool.false_eq_true,
            if_false, if_true]

/-- A text which is there is reported to be there, whatever the settings are. -/
theorem revise_of_present {settings : Settings} {base : Base} {text : String} {formula : Formula}
    (parsed : Formula.parse (Text.trim text) = .ok formula)
    (present : Text.trim text ∈ base.texts) :
    revise settings base text =
      .ok ⟨base, [⟨.alreadyExists, Text.trim text⟩], .duplicate⟩ := by
  rcases revise_cases settings base parsed with
    ⟨_, ended⟩ | ⟨fresh, _, _⟩ | ⟨fresh, _, _⟩
  · exact ended
  · exact absurd present fresh
  · exact absurd present fresh

/-- A new text whose formula follows is reported to follow. -/
theorem revise_of_entailed {settings : Settings} {base : Base} {text : String} {formula : Formula}
    (parsed : Formula.parse (Text.trim text) = .ok formula) (fresh : Text.trim text ∉ base.texts)
    (entailed : settings.entailmentCheck = true ∧ base.clauses.Satisfiable ∧
      base.Entails formula) :
    revise settings base text =
      .ok ⟨base, [⟨.alreadyEntailed, Text.trim text⟩], .entailed⟩ := by
  rcases revise_cases settings base parsed with
    ⟨present, _⟩ | ⟨_, _, ended⟩ | ⟨_, undecided, _⟩
  · exact absurd present fresh
  · exact ended
  · exact absurd entailed undecided

/-- A new text whose formula does not follow, or is not asked to, is added as a belief. -/
theorem revise_of_undecided {settings : Settings} {base : Base} {text : String} {formula : Formula}
    (parsed : Formula.parse (Text.trim text) = .ok formula) (fresh : Text.trim text ∉ base.texts)
    (undecided : ¬ (settings.entailmentCheck = true ∧ base.clauses.Satisfiable ∧
      base.Entails formula)) :
    revise settings base text =
      .ok (ofBelief settings base (.ofNormalForm (Text.trim text) formula)) := by
  rcases revise_cases settings base parsed with
    ⟨present, _⟩ | ⟨_, entailed, _⟩ | ⟨_, _, ended⟩
  · exact absurd present fresh
  · exact absurd entailed undecided
  · exact ended

/-- Two attempts at a revision are refused for the same cause, or both of them come to a
revision, and these are related. -/
inductive Paired (related : Revision → Revision → Prop) :
    Except FormulaError Revision → Except FormulaError Revision → Prop where
  | refused (cause : FormulaError) : Paired related (.error cause) (.error cause)
  | made {first second : Revision} (results : related first second) :
      Paired related (.ok first) (.ok second)

/-- Where the first attempt comes to a revision, the second does, and the two are related. -/
theorem Paired.exists_right {related : Revision → Revision → Prop} {first : Revision}
    {attempt : Except FormulaError Revision} (paired : Paired related (.ok first) attempt) :
    ∃ second, attempt = .ok second ∧ related first second := by
  cases paired with
  | made results => exact ⟨_, rfl, results⟩

/-- Where the second attempt comes to a revision, the first does. -/
theorem Paired.exists_left {related : Revision → Revision → Prop} {second : Revision}
    {attempt : Except FormulaError Revision} (paired : Paired related attempt (.ok second)) :
    ∃ first, attempt = .ok first ∧ related first second := by
  cases paired with
  | made results => exact ⟨_, rfl, results⟩

/-- Where the text is present in both bases or in none, and the formula is found to follow in
both or in none, two revisions by one text compare as the ways in which they add the belief. -/
theorem paired_of_added {settings others : Settings} {base other : Base} {text : String}
    {related : Revision → Revision → Prop}
    (samePresent : Text.trim text ∈ base.texts ↔ Text.trim text ∈ other.texts)
    (sameEntailed : ∀ formula,
      (settings.entailmentCheck = true ∧ base.clauses.Satisfiable ∧ base.Entails formula) ↔
        (others.entailmentCheck = true ∧ other.clauses.Satisfiable ∧ other.Entails formula))
    (duplicate : related ⟨base, [⟨.alreadyExists, Text.trim text⟩], .duplicate⟩
      ⟨other, [⟨.alreadyExists, Text.trim text⟩], .duplicate⟩)
    (entailed : related ⟨base, [⟨.alreadyEntailed, Text.trim text⟩], .entailed⟩
      ⟨other, [⟨.alreadyEntailed, Text.trim text⟩], .entailed⟩)
    (added : ∀ formula, related
      (ofBelief settings base (.ofNormalForm (Text.trim text) formula))
      (ofBelief others other (.ofNormalForm (Text.trim text) formula))) :
    Paired related (revise settings base text) (revise others other text) := by
  cases parsed : Formula.parse (Text.trim text) with
  | error cause =>
    rw [revise_of_refused settings base parsed, revise_of_refused others other parsed]
    exact .refused (.parse cause)
  | ok formula =>
    rcases revise_cases settings base parsed with
      ⟨present, ended⟩ | ⟨fresh, isEntailed, ended⟩ | ⟨fresh, undecided, ended⟩
    · rw [ended, revise_of_present parsed (samePresent.mp present)]
      exact .made duplicate
    · rw [samePresent] at fresh
      rw [sameEntailed] at isEntailed
      rw [ended, revise_of_entailed parsed fresh isEntailed]
      exact .made entailed
    · rw [samePresent] at fresh
      rw [sameEntailed] at undecided
      rw [ended, revise_of_undecided parsed fresh undecided]
      exact .made (added formula)

/-- The ways in which a revision by the formula ends, each with what it takes. Where the
base does not admit the formula, it is inconsistent or the formula does not follow, and
so the last two ways need not say that again. -/
inductive Ends (settings : Settings) (base : Base) (text : String) (formula : Formula) :
    Revision → Prop where
  /-- The text is the text of a belief. -/
  | duplicate (present : Text.trim text ∈ base.texts) :
      Ends settings base text formula
        ⟨base, [⟨.alreadyExists, Text.trim text⟩], .duplicate⟩
  /-- The base is consistent, and the formula follows from it. -/
  | entailed (fresh : Text.trim text ∉ base.texts) (check : settings.entailmentCheck = true)
      (satisfiable : base.clauses.Satisfiable) (follows : base.Entails formula) :
      Ends settings base text formula
        ⟨base, [⟨.alreadyEntailed, Text.trim text⟩], .entailed⟩
  /-- The formula contradicts nothing and is added. -/
  | expanded (fresh : Text.trim text ∉ base.texts)
      (undecided : ¬ (settings.entailmentCheck = true ∧ base.clauses.Satisfiable ∧
        base.Entails formula))
      (admitted : base.Admits formula) :
      Ends settings base text formula
        ⟨base.push (.ofNormalForm (Text.trim text) formula), [⟨.added, Text.trim text⟩], .expanded⟩
  /-- What the search finds is given up, and the formula is added. -/
  | contracted (fresh : Text.trim text ∉ base.texts) (contradicts : ¬ base.Admits formula)
      {collection : List Nat}
      (found : Contraction.find? settings base (.ofNormalForm (Text.trim text) formula) =
        some collection) :
      Ends settings base text formula
        ⟨(base.without collection).push (.ofNormalForm (Text.trim text) formula),
          ⟨.conflictDetected, Text.trim text⟩ ::
            ((collection.filterMap base.get?).map Belief.text).map (⟨.removed, ·⟩) ++
            [⟨.added, Text.trim text⟩],
          .contracted ((collection.filterMap base.get?).map Belief.text)⟩
  /-- No beliefs within the limit make room for the formula. -/
  | unresolved (fresh : Text.trim text ∉ base.texts) (contradicts : ¬ base.Admits formula)
      (noRoom : ¬ Contractible settings base formula) :
      Ends settings base text formula
        ⟨base, [⟨.conflictDetected, Text.trim text⟩, ⟨.unresolved, Text.trim text⟩], .unresolved⟩

/-- A revision by a text which parses ends in one of the five ways. -/
theorem revise_ends {text : String} {formula : Formula} (settings : Settings) (base : Base)
    (parsed : Formula.parse (Text.trim text) = .ok formula) :
    ∃ revision, revise settings base text = .ok revision ∧
      Ends settings base text formula revision := by
  have sameText : (Belief.ofNormalForm (Text.trim text) formula).text = Text.trim text :=
    Text.trim_trim text
  rcases revise_cases settings base parsed with
    ⟨present, ended⟩ | ⟨fresh, ⟨check, satisfiable, follows⟩, ended⟩ | ⟨fresh, undecided, ended⟩
  · exact ⟨_, ended, .duplicate present⟩
  · exact ⟨_, ended, .entailed fresh check satisfiable follows⟩
  · refine ⟨_, ended, ?_⟩
    rcases ofBelief_cases settings base (.ofNormalForm (Text.trim text) formula) with
      ⟨admits, added⟩ | ⟨contradicts, collection, found, _, added⟩ | ⟨contradicts, noRoom, added⟩
    · rw [added, sameText]
      exact .expanded fresh undecided (admits_ofNormalForm.mp admits)
    · rw [← Bool.not_eq_true, admits_ofNormalForm] at contradicts
      rw [added, sameText]
      exact .contracted fresh contradicts found
    · rw [← Bool.not_eq_true, admits_ofNormalForm] at contradicts
      rw [makesRoom_ofNormalForm] at noRoom
      rw [added, sameText]
      exact .unresolved fresh contradicts noRoom

/-- A revision which was made ended in one of the five ways. -/
theorem ends_of_revise {settings : Settings} {base : Base} {text : String} {formula : Formula}
    {revision : Revision} (parsed : Formula.parse (Text.trim text) = .ok formula)
    (revised : revise settings base text = .ok revision) :
    Ends settings base text formula revision := by
  obtain ⟨other, ended, ends⟩ := revise_ends settings base parsed
  rwa [Except.ok.inj (revised.symm.trans ended)]

/-- Only a text which parses is revised by. -/
theorem parse_of_revise {settings : Settings} {base : Base} {text : String} {revision : Revision}
    (revised : revise settings base text = .ok revision) :
    ∃ formula, Formula.parse (Text.trim text) = .ok formula := by
  cases parsed : Formula.parse (Text.trim text) with
  | ok formula => exact ⟨formula, rfl⟩
  | error cause =>
    rw [revise_of_refused settings base parsed] at revised
    cases revised

/-- A new formula which does not follow is added to a base which admits it. -/
theorem revise_of_admits {settings : Settings} {base : Base} {text : String} {formula : Formula}
    (parsed : Formula.parse (Text.trim text) = .ok formula) (fresh : Text.trim text ∉ base.texts)
    (undecided : ¬ base.Entails formula) (admitted : base.Admits formula) :
    revise settings base text =
      .ok ⟨base.push (.ofNormalForm (Text.trim text) formula), [⟨.added, Text.trim text⟩],
        .expanded⟩ := by
  obtain ⟨revision, revised, ends⟩ := revise_ends settings base parsed
  cases ends with
  | duplicate present => exact absurd present fresh
  | entailed _ _ _ follows => exact absurd follows undecided
  | expanded => exact revised
  | contracted _ contradicts => exact absurd admitted contradicts
  | unresolved _ contradicts => exact absurd admitted contradicts

/-- A new formula which the base does not admit is added in place of some beliefs, if
there is room for it at all. -/
theorem contracted_of_contractible {settings : Settings} {base : Base} {text : String}
    {formula : Formula} (parsed : Formula.parse (Text.trim text) = .ok formula)
    (fresh : Text.trim text ∉ base.texts) (contradicts : ¬ base.Admits formula)
    (room : Contractible settings base formula) :
    ∃ revision removed, revise settings base text = .ok revision ∧
      revision.outcome = .contracted removed := by
  obtain ⟨revision, revised, ends⟩ := revise_ends settings base parsed
  cases ends with
  | duplicate present => exact absurd present fresh
  | entailed _ _ satisfiable follows =>
    obtain ⟨truth, holds⟩ := satisfiable
    exact absurd ⟨truth, holds, follows truth holds⟩ contradicts
  | expanded _ _ admitted => exact absurd admitted contradicts
  | contracted => exact ⟨_, _, revised, rfl⟩
  | unresolved _ _ noRoom => exact absurd room noRoom

/-- Revision by a text which parses gives a revision, and decides by assignments alone:
of the five outcomes each arises exactly when its condition holds and none of those
before it does. -/
theorem revise_decides {text : String} {formula : Formula} (settings : Settings) (base : Base)
    (parsed : Formula.parse (Text.trim text) = .ok formula) :
    let duplicate := Text.trim text ∈ base.texts
    let entailed :=
      settings.entailmentCheck = true ∧ base.clauses.Satisfiable ∧ base.Entails formula
    let admitted := base.Admits formula
    let contractible := Contractible settings base formula
    ∃ revision, revise settings base text = .ok revision ∧
      (revision.outcome = .duplicate ↔ duplicate) ∧
      (revision.outcome = .entailed ↔ ¬ duplicate ∧ entailed) ∧
      (revision.outcome = .expanded ↔ ¬ duplicate ∧ ¬ entailed ∧ admitted) ∧
      ((∃ removed, revision.outcome = .contracted removed) ↔
        ¬ duplicate ∧ ¬ entailed ∧ ¬ admitted ∧ contractible) ∧
      (revision.outcome = .unresolved ↔
        ¬ duplicate ∧ ¬ entailed ∧ ¬ admitted ∧ ¬ contractible) := by
  intro duplicate entailed admitted contractible
  rcases revise_cases settings base parsed with
    ⟨isDuplicate, ended⟩ | ⟨notDuplicate, isEntailed, ended⟩ | ⟨notDuplicate, notEntailed, ended⟩
  · refine ⟨_, ended, ?_⟩
    simp [duplicate, isDuplicate]
  · refine ⟨_, ended, ?_⟩
    simp [duplicate, entailed, notDuplicate, isEntailed]
  · refine ⟨_, ended, ?_⟩
    have isAdmitted : Contraction.admits settings.tautologyPruning base
        (.ofNormalForm (Text.trim text) formula) = true ↔ admitted := admits_ofNormalForm
    have isContractible : (∃ collection, Contraction.MakesRoom settings base
        (.ofNormalForm (Text.trim text) formula) collection) ↔ contractible :=
      makesRoom_ofNormalForm
    rcases ofBelief_cases settings base (.ofNormalForm (Text.trim text) formula) with
      ⟨admits, added⟩ | ⟨contradicts, collection, _, makesRoom, added⟩ |
        ⟨contradicts, noRoom, added⟩
    · have holds := isAdmitted.mp admits
      simp [added, duplicate, entailed, notDuplicate, notEntailed, holds]
    · have room := isContractible.mp ⟨collection, makesRoom⟩
      rw [← Bool.not_eq_true, isAdmitted] at contradicts
      simp [added, duplicate, entailed, notDuplicate, notEntailed, contradicts, room]
    · rw [isContractible] at noRoom
      rw [← Bool.not_eq_true, isAdmitted] at contradicts
      simp [added, duplicate, entailed, notDuplicate, notEntailed, contradicts, noRoom]

/-- The negation of the only belief neither follows nor is admitted, but giving the
belief up makes room. -/
theorem revise_negated_belief :
    ∃ revision removed,
      revise {} ⟨[.ofNormalForm "A" (.atom ⟨"A", by decide⟩)]⟩ " ¬A " = .ok revision ∧
        revision.outcome = .contracted removed := by
  have parsed : Formula.parse (Text.trim " ¬A ") = .ok (.not (.atom ⟨"A", by decide⟩)) := by cbv
  obtain ⟨revision, given, _, _, _, contracted, _⟩ :=
    revise_decides {} ⟨[.ofNormalForm "A" (.atom ⟨"A", by decide⟩)]⟩ parsed
  have meaning (truth : Atom → Bool) :
      (Base.mk [.ofNormalForm "A" (.atom ⟨"A", by decide⟩)]).clauses.eval truth =
        truth ⟨"A", by decide⟩ := by
    simp [Base.clauses, Base.clauseSets, Formula.eval]
  have fresh : Text.trim " ¬A " ∉
      (Base.mk [.ofNormalForm "A" (.atom ⟨"A", by decide⟩)]).texts := by
    decide
  have contradicts (truth : Atom → Bool) : truth ⟨"A", by decide⟩ = true →
      ¬ (Formula.not (.atom ⟨"A", by decide⟩)).eval truth = true := by
    intro holds negated
    simp [Formula.eval, holds] at negated
  have condition := contracted.mpr ⟨fresh, ?_, ?_, [0], by decide, by decide, by decide, by decide,
    fun _ => false, rfl, rfl⟩
  · obtain ⟨removed, ended⟩ := condition
    exact ⟨revision, removed, given, ended⟩
  · rintro ⟨_, _, follows⟩
    exact contradicts (fun _ => true) rfl (follows (fun _ => true) (meaning _))
  · rintro ⟨truth, holds, negated⟩
    exact contradicts truth (meaning truth ▸ holds) negated

end Revision
end BeliefRevision
