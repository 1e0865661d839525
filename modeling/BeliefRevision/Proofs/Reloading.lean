import BeliefRevision.Proofs.Rereading
import BeliefRevision.Proofs.Sessions
import BeliefRevision.Proofs.StoredRecords

/-!
# Storing a base and reading it back

A session which starts from nothing holds beliefs that were made of their own texts,
each text once. Such a base is stored by its texts and its printed normal forms, and the
clauses are read off the normal forms again.

The reader has a limit on the depth of a formula which normal forms are not held to.
A base is therefore read back exactly when each of its normal forms, with its chains
grouped to the left, is within the limit. Otherwise what was stored is refused.
-/

namespace BeliefRevision

namespace Belief

/-- The belief was made of the formula which is written in its text. -/
def IsMade (belief : Belief) : Prop :=
  ∃ formula, Formula.parse belief.text = .ok formula ∧ belief = .ofNormalForm belief.text formula

/-- Whether the normal form, with its chains grouped to the left, is shallow enough for
the reader. -/
def isReloadable (belief : Belief) : Bool :=
  match Formula.parse belief.text with
  | .ok formula => formula.cnf.regrouped.depth ≤ depthLimit
  | .error _ => false

/-- A belief which is made of a parsed text is made of its own text, as that is the trimmed one. -/
theorem isMade_ofNormalForm {text : String} {formula : Formula}
    (parsed : Formula.parse (Text.trim text) = .ok formula) :
    (ofNormalForm (Text.trim text) formula).IsMade := by
  refine ⟨formula, ?_, ?_⟩
  · simpa [ofNormalForm] using parsed
  · simp [ofNormalForm]

/-- Such a belief can be read back where the normal form of its formula is shallow enough. -/
theorem isReloadable_ofNormalForm {text : String} {formula : Formula}
    (parsed : Formula.parse (Text.trim text) = .ok formula) :
    (ofNormalForm (Text.trim text) formula).isReloadable =
      decide (formula.cnf.regrouped.height ≤ depthLimit) := by
  have trimmed : (ofNormalForm (Text.trim text) formula).text = Text.trim text :=
    Text.trim_trim text
  rw [isReloadable, trimmed, parsed, ← Formula.depth_eq_height]

/-- A made belief has a trimmed text. -/
theorem IsMade.trim_text {belief : Belief} (made : belief.IsMade) :
    Text.trim belief.text = belief.text := by
  obtain ⟨formula, _, same⟩ := made
  exact (congrArg Belief.text same).symm

/-- A record is read by its text and its normal form. -/
theorem ofJson_toRecord (belief : Belief) :
    ofJson (Json.ofRecord belief.toRecord) =
      (ofRecord belief.text belief.cnf).mapError .unreadable := by
  have written : fieldsOf (Json.ofRecord belief.toRecord) = .ok (belief.text, belief.cnf) := rfl
  rw [ofJson_eq, written]
  rfl

/-- A made belief is read back from its record, unless its normal form is too deep. -/
theorem IsMade.ofJson_eq {belief : Belief} (made : belief.IsMade) :
    ofJson (Json.ofRecord belief.toRecord) =
      if belief.isReloadable then .ok belief else .error (.unreadable (.parse .tooDeep)) := by
  obtain ⟨formula, parsed, same⟩ := made
  have form : belief.cnf = formula.cnf.text := congrArg Belief.cnf same
  have shallow : belief.isReloadable = decide (formula.cnf.regrouped.depth ≤ depthLimit) := by
    rw [isReloadable, parsed]
  rw [ofJson_toRecord, ofRecord, form, ClauseSet.parse_text_cnf, shallow]
  by_cases within : formula.cnf.regrouped.depth ≤ depthLimit
  · rw [if_pos within, if_pos (decide_eq_true within)]
    exact congrArg Except.ok same.symm
  · rw [if_neg within, if_neg (by simpa using within)]
    rfl

end Belief

namespace Base

/-- Every belief was made of its text, and no text is there twice. -/
structure IsMade (base : Base) : Prop where
  made : ∀ belief ∈ base.beliefs, belief.IsMade
  distinct : base.texts.Nodup

/-- The empty base has no belief which could be made otherwise. -/
theorem IsMade.empty : IsMade .empty := ⟨by simp [Base.empty], List.nodup_nil⟩

/-- Some of the beliefs, in their order, keep what all of them have. -/
theorem IsMade.sublist {base : Base} (isMade : base.IsMade) {kept : List Belief}
    (sublist : kept.Sublist base.beliefs) : IsMade ⟨kept⟩ where
  made := fun belief member => isMade.made belief (sublist.subset member)
  distinct := isMade.distinct.sublist (sublist.map Belief.text)

/-- Adding a made belief keeps the base made, as a text which is there already is not added. -/
theorem IsMade.push {base : Base} (isMade : base.IsMade) {belief : Belief}
    (made : belief.IsMade) : (base.push belief).IsMade where
  made := by
    intro other member
    rcases mem_push member with inside | rfl
    · exact isMade.made other inside
    · exact made
  distinct := texts_push_nodup made.trim_text isMade.distinct

/-- Every change keeps a base made of its texts. -/
theorem Change.isMade {base next : Base} (change : base.Change next) (isMade : base.IsMade) :
    next.IsMade := by
  cases change with
  | keep => exact isMade
  | remove text => exact isMade.sublist List.eraseP_sublist
  | add collection parsed admitted =>
    have kept : (base.without collection).IsMade := isMade.sublist (base.without_sublist collection)
    exact kept.push (Belief.isMade_ofNormalForm parsed)

/-- Taking in the beliefs of such a base one by one drops none. -/
theorem foldl_push {before after : List Belief} (isMade : IsMade ⟨before ++ after⟩) :
    after.foldl push ⟨before⟩ = ⟨before ++ after⟩ := by
  induction after generalizing before with
  | nil => rw [List.foldl_nil, List.append_nil]
  | cons belief after inductionHypothesis =>
    have made : belief.IsMade := isMade.made belief (by simp)
    have distinct := isMade.distinct
    have fresh : ¬ (Base.mk before).contains belief.text = true := by
      rw [Base.contains_iff, made.trim_text]
      intro repeated
      rw [texts, List.map_append, List.nodup_append] at distinct
      exact distinct.2.2 belief.text repeated belief.text (by simp) rfl
    have reordered : before ++ belief :: after = before ++ [belief] ++ after := by simp
    rw [reordered] at isMade ⊢
    rw [List.foldl_cons, push, if_neg fresh]
    exact inductionHypothesis isMade

/-- A base made of its texts is read back if its normal forms are not too deep. If one of
them is, nothing is read. -/
theorem IsMade.ofStore_toStore {base : Base} (isMade : base.IsMade) :
    ofStore base.toStore =
      if base.beliefs.all Belief.isReloadable then .ok base
      else .error (.malformed (some ParseError.tooDeep.message)) := by
  have each : ∀ belief ∈ base.beliefs, (Belief.ofJson ∘ Json.ofRecord ∘ Belief.toRecord) belief =
      if belief.isReloadable then .ok (id belief) else .error (.unreadable (.parse .tooDeep)) := by
    intro belief member
    exact (isMade.made belief member).ofJson_eq
  have read := mapM_of_each each
  rw [toStore, ofStore_spread, toRecords, List.map_map, List.mapM_map, read]
  by_cases reloadable : base.beliefs.all Belief.isReloadable = true
  · have all : ofList base.beliefs = base := @foldl_push [] base.beliefs isMade
    simp [reloadable, all]
  · simp [reloadable, RecordError.message?, FormulaError.message]

end Base

namespace Session

/-- A session which starts from nothing holds beliefs which were made of their texts. -/
theorem isMade_run (settings : Settings) (requests : List Request) :
    (run ⟨settings, .empty⟩ requests).base.IsMade :=
  run_keeps Base.Change.isMade requests Base.IsMade.empty

/-- What a session which started from nothing has stored is read back as the same base,
with the same beliefs in the same order, exactly when each normal form is shallow enough
for the reader. Otherwise the session has stored what is refused as too deep. -/
theorem reload_run (settings : Settings) (requests : List Request) :
    Base.ofStore (run ⟨settings, .empty⟩ requests).base.toStore =
      if (run ⟨settings, .empty⟩ requests).base.beliefs.all Belief.isReloadable then
        .ok (run ⟨settings, .empty⟩ requests).base
      else .error (.malformed (some ParseError.tooDeep.message)) :=
  (isMade_run settings requests).ofStore_toStore

/-- A formula which is neither valid nor a contradiction is the first belief of a session
which starts from nothing. -/
theorem run_revise_first {settings : Settings} {text : String} {formula : Formula}
    (parsed : Formula.parse (Text.trim text) = .ok formula)
    (undecided : ¬ Base.empty.Entails formula) (admitted : Base.empty.Admits formula) :
    (run ⟨settings, .empty⟩ [.revise text]).base =
      ⟨[.ofNormalForm (Text.trim text) formula]⟩ := by
  have revised := @Revision.revise_of_admits settings .empty text formula parsed List.not_mem_nil
    undecided admitted
  simp only [run, List.foldl_cons, List.foldl_nil, apply, revise, revised]
  rfl

/-- The formula in conjunction with itself, that many times more. -/
def repeated (formula : Formula) : Nat → Formula
  | 0 => formula
  | more + 1 => .and (repeated formula more) formula

/-- Three conjunctions of eight atoms, in a disjunction. -/
def wideText : String := "A∧A∧A∧A∧A∧A∧A∧A∨B∧B∧B∧B∧B∧B∧B∧B∨C∧C∧C∧C∧C∧C∧C∧C"

/-- The formula of the text. -/
def wideFormula : Formula :=
  .or (.or (repeated (.atom ⟨"A", by decide⟩) 7) (repeated (.atom ⟨"B", by decide⟩) 7))
    (repeated (.atom ⟨"C", by decide⟩) 7)

/-- The normal form of the formula has 512 conjuncts. A session takes the formula in and
stores it, and what is stored is refused. -/
theorem refused_reload :
    (run ⟨{}, .empty⟩ [.revise wideText]).base.size = 1 ∧
      Base.ofStore (run ⟨{}, .empty⟩ [.revise wideText]).base.toStore =
        .error (.malformed (some "formula nested deeper than 512")) := by
  have parsed : Formula.parse (Text.trim wideText) = .ok wideFormula := by cbv
  have undecided : ¬ Base.empty.Entails wideFormula := by
    intro follows
    exact Bool.false_ne_true (follows (fun _ => false) rfl)
  have admitted : Base.empty.Admits wideFormula := ⟨fun _ => true, rfl, rfl⟩
  have base := @run_revise_first {} wideText wideFormula parsed undecided admitted
  have deep : ¬ wideFormula.cnf.regrouped.height ≤ depthLimit := by decide +kernel
  have message : ParseError.tooDeep.message = "formula nested deeper than 512" := rfl
  have stored := (isMade_run {} [.revise wideText]).ofStore_toStore
  rw [base, List.all_cons, Belief.isReloadable_ofNormalForm parsed, decide_eq_false deep,
    Bool.false_and, if_neg Bool.false_ne_true, message] at stored
  rw [base]
  exact ⟨rfl, stored⟩

end Session
end BeliefRevision
