import BeliefRevision.Proofs.Replaying
import BeliefRevision.Proofs.StoredRecords
import Mathlib

/-!
# Bases with each text once

The beliefs which a program can get hold of are made of texts, of formulas or of records, and
in all three ways their texts are trimmed. The bases it can get hold of are collected from such
beliefs or loaded from a store, and then changed any number of times. No such base has a text
twice, and none has a text with blanks at its ends.

Looking a text up and taking it out both stop at the first belief with the text. They rely on
there being no second one: a text which was taken out is not found again. A store may repeat a
text, also with blanks around it, and is loaded as if only the first record of each text were
there.
-/

namespace BeliefRevision

namespace Belief

/-- How a program comes by a belief. -/
inductive Obtained (belief : Belief) : Prop where
  /-- The belief was made of its text. -/
  | ofText {text : String} (made : Belief.ofText text = .ok belief)
  /-- The belief was made of a formula, which need not be the one written in the text. -/
  | ofFormula {text : String} {formula : Formula}
      (made : Belief.ofFormula text formula = .ok belief)
  /-- The belief was stored. -/
  | ofRecord {text cnf : String} (read : Belief.ofRecord text cnf = .ok belief)

/-- A belief which is made from a record has the text of the record, trimmed. -/
theorem text_of_ofRecord {text cnf : String} {belief : Belief}
    (read : ofRecord text cnf = .ok belief) : belief.text = Text.trim text := by
  cases parsed : ClauseSet.parse cnf with
  | error cause => simp [ofRecord, parsed] at read
  | ok clauses =>
    simp only [ofRecord, parsed, Except.ok.injEq] at read
    rw [← read]

/-- A belief is made with its text trimmed, however it is made. -/
theorem Obtained.trim_text {belief : Belief} (obtained : belief.Obtained) :
    Text.trim belief.text = belief.text := by
  have trimmed : ∃ text, belief.text = Text.trim text := by
    cases obtained with
    | @ofText text made =>
      obtain ⟨formula, _, same⟩ := ofText_eq_ok_iff.mp made
      exact ⟨text, (congrArg Belief.text same).symm⟩
    | @ofFormula text formula made =>
      rw [ofFormula_eq, Except.ok.injEq] at made
      exact ⟨text, (congrArg Belief.text made).symm⟩
    | @ofRecord text _ read => exact ⟨text, text_of_ofRecord read⟩
  obtain ⟨text, same⟩ := trimmed
  rw [same, Text.trim_trim]

end Belief

/-- Where items are read in two steps, the first step succeeds by itself, and the second one
makes the values of what the first one has read. -/
theorem mapM_first_step {Item Part Value Cause Other : Type} {read : Item → Except Cause Value}
    {first : Item → Except Cause Part} {second : Part → Except Other Value}
    (steps : ∀ item value, read item = .ok value →
      ∃ part, first item = .ok part ∧ second part = .ok value)
    {items : List Item} {values : List Value} (given : items.mapM read = .ok values) :
    ∃ parts, items.mapM first = .ok parts ∧ parts.map second = values.map .ok := by
  induction items generalizing values with
  | nil =>
    obtain rfl : [] = values := Except.ok.inj given
    exact ⟨[], rfl, rfl⟩
  | cons item items inductionHypothesis =>
    rw [List.mapM_cons] at given
    cases made : read item with
    | error cause =>
      rw [made] at given
      cases given
    | ok value =>
      cases others : items.mapM read with
      | error cause =>
        rw [made, others] at given
        cases given
      | ok rest =>
        rw [made, others] at given
        obtain rfl : value :: rest = values := Except.ok.inj given
        obtain ⟨part, firstRead, secondMade⟩ := steps item value made
        obtain ⟨parts, restRead, restMade⟩ := inductionHypothesis others
        refine ⟨part :: parts, ?_, ?_⟩
        · rw [List.mapM_cons, firstRead, restRead]
          rfl
        · rw [List.map_cons, List.map_cons, secondMade, restMade]

/-- The first record of each text, in order. Blanks around a text make no difference. -/
def firstRecords (records : List (String × String)) : List (String × String) :=
  (records.zipIdx.filter fun entry =>
    (records.take entry.2).all fun earlier =>
      Text.trim earlier.1 ≠ Text.trim entry.1.1).map Prod.fst

/-- A last record counts where its text is not among those before. -/
theorem firstRecords_concat (records : List (String × String)) (record : String × String) :
    firstRecords (records ++ [record]) =
      if Text.trim record.1 ∈ records.map fun earlier => Text.trim earlier.1 then
        firstRecords records
      else firstRecords records ++ [record] := by
  have before : ∀ entry ∈ records.zipIdx,
      (records ++ [record]).take entry.2 = records.take entry.2 := by
    intro entry member
    have inside : entry.2 < records.length := (List.mem_zipIdx' member).1
    exact List.take_append_of_le_length (Nat.le_of_lt inside)
  have kept : (records.zipIdx.filter fun entry =>
      ((records ++ [record]).take entry.2).all fun earlier =>
        Text.trim earlier.1 ≠ Text.trim entry.1.1) =
      records.zipIdx.filter fun entry =>
        (records.take entry.2).all fun earlier => Text.trim earlier.1 ≠ Text.trim entry.1.1 :=
    List.filter_congr fun entry member => by rw [before entry member]
  have all : (records ++ [record]).take (0 + records.length) = records := by simp
  rw [firstRecords, firstRecords, List.zipIdx_append, List.filter_append, kept, List.map_append,
    List.zipIdx_singleton]
  by_cases repeated : Text.trim record.1 ∈ records.map fun earlier => Text.trim earlier.1
  · obtain ⟨earlier, member, same⟩ := List.mem_map.mp repeated
    rw [if_pos repeated, List.filter_cons_of_neg, List.filter_nil, List.map_nil, List.append_nil]
    rw [all, List.all_eq_true]
    intro others
    simpa [same] using others earlier member
  · rw [if_neg repeated, List.filter_cons_of_pos, List.filter_nil, List.map_singleton]
    rw [all, List.all_eq_true]
    intro earlier member
    have other : Text.trim earlier.1 ≠ Text.trim record.1 :=
      fun same => repeated (List.mem_map.mpr ⟨earlier, member, same⟩)
    exact decide_eq_true other

namespace Base

variable {base : Base} {belief : Belief}

/-- The text of a belief is added where it is not there. -/
theorem mem_texts_push (trimmed : Text.trim belief.text = belief.text) {text : String} :
    text ∈ (base.push belief).texts ↔ text ∈ base.texts ∨ text = belief.text := by
  by_cases repeated : base.contains belief.text = true
  · have inside : belief.text ∈ base.texts := by rwa [contains_iff, trimmed] at repeated
    rw [push, if_pos repeated]
    constructor
    · exact .inl
    · rintro (member | rfl)
      · exact member
      · exact inside
  · rw [push, if_neg repeated]
    simp [texts]

/-- The empty base has no text which could be improper. -/
theorem HasProperTexts.empty : HasProperTexts .empty where
  trimmed := by simp [texts, Base.empty]
  distinct := List.nodup_nil

/-- Some of the beliefs, in their order, keep what all of them have. -/
theorem HasProperTexts.sublist (proper : base.HasProperTexts) {kept : List Belief}
    (sublist : kept.Sublist base.beliefs) : HasProperTexts ⟨kept⟩ where
  trimmed := fun text member => proper.trimmed text ((sublist.map Belief.text).subset member)
  distinct := proper.distinct.sublist (sublist.map Belief.text)

/-- Adding a belief whose text is trimmed keeps the texts proper, as one which is there already is
not added. -/
theorem HasProperTexts.push (proper : base.HasProperTexts)
    (trimmed : Text.trim belief.text = belief.text) : (base.push belief).HasProperTexts where
  trimmed := by
    intro text member
    rcases (mem_texts_push trimmed).mp member with inside | rfl
    · exact proper.trimmed text inside
    · exact trimmed
  distinct := texts_push_nodup trimmed proper.distinct

/-- Where no text is there twice, a text which is taken out is not there any more. -/
theorem contains_remove (distinct : base.texts.Nodup) (text : String) :
    (base.remove text).contains text = false := by
  rw [← Bool.not_eq_true, contains_iff, texts, remove_eq_filter distinct]
  intro member
  obtain ⟨belief, kept, same⟩ := List.mem_map.mp member
  have other : belief.text ≠ Text.trim text := of_decide_eq_true (List.mem_filter.mp kept).2
  exact other same

/-- The base of a list is that of the list without its last belief, which is then added. -/
theorem ofList_concat (beliefs : List Belief) (belief : Belief) :
    ofList (beliefs ++ [belief]) = (ofList beliefs).push belief := by
  rw [ofList, List.foldl_append, List.foldl_cons, List.foldl_nil, ofList]

/-- Collecting beliefs loses none of their texts. -/
theorem mem_texts_ofList {beliefs : List Belief}
    (trimmed : ∀ belief ∈ beliefs, Text.trim belief.text = belief.text) {text : String} :
    text ∈ (ofList beliefs).texts ↔ text ∈ beliefs.map Belief.text := by
  induction beliefs using List.reverseRecOn with
  | nil => rfl
  | append_singleton beliefs belief inductionHypothesis =>
    have others := inductionHypothesis fun other member =>
      trimmed other (List.mem_append_left [belief] member)
    rw [ofList_concat, mem_texts_push (trimmed belief (by simp)), others]
    simp

/-- A base which is made of beliefs with trimmed texts has proper texts, even if some text comes
several times. -/
theorem HasProperTexts.ofList {beliefs : List Belief}
    (trimmed : ∀ belief ∈ beliefs, Text.trim belief.text = belief.text) :
    (Base.ofList beliefs).HasProperTexts := by
  induction beliefs using List.reverseRecOn with
  | nil => exact .empty
  | append_singleton beliefs belief inductionHypothesis =>
    have others := inductionHypothesis fun other member =>
      trimmed other (List.mem_append_left [belief] member)
    rw [ofList_concat]
    exact others.push (trimmed belief (by simp))

variable {records : List (String × String)} {beliefs : List Belief}

/-- Records which are all read make beliefs with their texts, in their order. -/
theorem texts_of_records
    (read : records.map (fun record => Belief.ofRecord record.1 record.2) = beliefs.map .ok) :
    beliefs.map Belief.text = records.map fun record => Text.trim record.1 := by
  induction records generalizing beliefs with
  | nil => rw [List.map_eq_nil_iff.mp read.symm, List.map_nil, List.map_nil]
  | cons record records inductionHypothesis =>
    obtain ⟨belief, others, rfl, made, rest⟩ := List.map_eq_cons_iff.mp read.symm
    rw [List.map_cons, List.map_cons, Belief.text_of_ofRecord made.symm,
      inductionHypothesis rest.symm]

/-- What was read from records has trimmed texts. -/
theorem trim_text_of_records
    (read : records.map (fun record => Belief.ofRecord record.1 record.2) = beliefs.map .ok) :
    ∀ belief ∈ beliefs, Text.trim belief.text = belief.text := by
  intro belief member
  have made : Except.ok belief ∈ records.map fun record => Belief.ofRecord record.1 record.2 := by
    rw [read]
    exact List.mem_map_of_mem member
  obtain ⟨record, _, given⟩ := List.mem_map.mp made
  exact (Belief.Obtained.ofRecord given).trim_text

/-- A base of beliefs which were read from records has those of the first records. -/
theorem ofList_firstRecords
    (read : records.map (fun record => Belief.ofRecord record.1 record.2) = beliefs.map .ok) :
    (ofList beliefs).beliefs.map .ok =
      (firstRecords records).map fun record => Belief.ofRecord record.1 record.2 := by
  induction records using List.reverseRecOn generalizing beliefs with
  | nil =>
    rw [List.map_eq_nil_iff.mp read.symm]
    rfl
  | append_singleton records record inductionHypothesis =>
    rw [List.map_append, List.map_singleton] at read
    obtain ⟨others, last, rfl, earlier, isLast⟩ := List.map_eq_append_iff.mp read.symm
    obtain ⟨belief, rfl, made⟩ := List.map_eq_singleton_iff.mp isLast
    have text : belief.text = Text.trim record.1 := Belief.text_of_ofRecord made.symm
    -- The base so far has the texts of all records before, not only of those it has kept.
    have there : (ofList others).contains belief.text = true ↔
        Text.trim record.1 ∈ records.map fun earlier => Text.trim earlier.1 := by
      rw [contains_iff, mem_texts_ofList (trim_text_of_records earlier.symm),
        texts_of_records earlier.symm, text, Text.trim_trim]
    rw [ofList_concat, firstRecords_concat]
    by_cases repeated : Text.trim record.1 ∈ records.map fun earlier => Text.trim earlier.1
    · rw [push, if_pos (there.mpr repeated), if_pos repeated]
      exact inductionHypothesis earlier.symm
    · rw [push, if_neg (mt there.mp repeated), if_neg repeated, List.map_append, List.map_append,
        inductionHypothesis earlier.symm, List.map_singleton, List.map_singleton, made]

/-- The records in a store by their texts and normal forms. A blank text has none. -/
def storedRecords (text : String) : Except (Option String) (List (String × String)) :=
  if (Text.trim text).isEmpty then .ok [] else readRecords Belief.fieldsOf text

/-- A store which is accepted is the base of beliefs read from its records. -/
theorem ofStore_eq_ok {text : String} (loaded : ofStore text = .ok base) :
    ∃ records beliefs, storedRecords text = .ok records ∧
      records.map (fun record => Belief.ofRecord record.1 record.2) = beliefs.map .ok ∧
      base = ofList beliefs := by
  unfold storedRecords
  by_cases blank : (Text.trim text).isEmpty = true
  · rw [ofStore, if_pos blank, Except.ok.injEq] at loaded
    exact ⟨[], [], if_pos blank, rfl, loaded.symm⟩
  · rw [ofStore, if_neg blank] at loaded
    rw [if_neg blank]
    cases given : readRecords Belief.ofJson text with
    | error reason =>
      rw [given] at loaded
      cases loaded
    | ok beliefs =>
      rw [given] at loaded
      obtain ⟨tokens, elements, tokenized, parsed, readAll⟩ := readRecords_eq_ok_iff.mp given
      obtain ⟨records, readFirst, read⟩ :=
        mapM_first_step (fun _ _ => Belief.fieldsOf_of_ofJson) readAll
      have inStore : readRecords Belief.fieldsOf text = .ok records :=
        readRecords_eq_ok_iff.mpr ⟨tokens, elements, tokenized, parsed, readFirst⟩
      exact ⟨records, beliefs, inStore, read, (Except.ok.inj loaded).symm⟩

/-- The bases which a program can get hold of. -/
inductive Obtained : Base → Prop where
  | empty : Obtained .empty
  /-- Beliefs are collected one by one. -/
  | ofList {beliefs : List Belief} (obtained : ∀ belief ∈ beliefs, belief.Obtained) :
      Obtained (.ofList beliefs)
  | ofStore {text : String} {base : Base} (loaded : Base.ofStore text = .ok base) : Obtained base
  | push {base : Base} {belief : Belief} (before : Obtained base) (obtained : belief.Obtained) :
      Obtained (base.push belief)
  /-- A belief is taken out, be it of the base itself or of a copy. -/
  | remove {base : Base} (before : Obtained base) (text : String) : Obtained (base.remove text)
  | without {base : Base} (before : Obtained base) (collection : List Nat) :
      Obtained (base.without collection)
  | revise {settings : Settings} {base : Base} {text : String} {revision : Revision}
      (before : Obtained base) (revised : Revision.revise settings base text = .ok revision) :
      Obtained revision.base

/-- However a base was obtained, its texts are proper. -/
theorem Obtained.hasProperTexts (obtained : base.Obtained) : base.HasProperTexts := by
  induction obtained with
  | empty => exact .empty
  | ofList obtained => exact .ofList fun belief member => (obtained belief member).trim_text
  | ofStore loaded =>
    obtain ⟨records, beliefs, _, read, rfl⟩ := ofStore_eq_ok loaded
    exact .ofList (trim_text_of_records read)
  | push _ obtained proper => exact proper.push obtained.trim_text
  | remove _ text proper => exact proper.sublist List.eraseP_sublist
  | without _ collection proper => exact proper.sublist (without_sublist _ collection)
  | revise _ revised proper =>
    -- A change takes out a collection by index, so that only what is left has to be looked at.
    rcases Revision.revise_base revised with ⟨_, same⟩ | ⟨_, collection, formula, _, _, same⟩
    · rw [same]
      exact proper
    · have kept := proper.sublist (without_sublist _ collection)
      rw [same]
      exact kept.push (Text.trim_trim _)

/-- Whatever is done to a base, its texts are different from each other and trimmed, and a text
which is taken out is not there any more. If the base was loaded, its beliefs are those of the
first records with their texts, in the order of the records. -/
theorem obtained_texts (obtained : base.Obtained) :
    base.texts.Nodup ∧ (∀ text ∈ base.texts, Text.IsTrimmed text) ∧
      (∀ text, (base.remove text).contains text = false) ∧
      ∀ stored, ofStore stored = .ok base → ∃ records, storedRecords stored = .ok records ∧
        base.beliefs.map .ok =
          (firstRecords records).map fun record => Belief.ofRecord record.1 record.2 := by
  obtain ⟨trimmed, distinct⟩ := obtained.hasProperTexts
  refine ⟨distinct, ?_, contains_remove distinct, ?_⟩
  · intro text member
    rw [← trimmed text member]
    exact Text.isTrimmed_trim text
  · intro stored loaded
    obtain ⟨records, beliefs, inStore, read, rfl⟩ := ofStore_eq_ok loaded
    exact ⟨records, inStore, ofList_firstRecords read⟩

/-- Records two of which have one text, the first of them with blanks around it. -/
def repeatedRecords : List Json.Record :=
  [[("text", " A "), ("cnf", "A")], [("text", "A"), ("cnf", "¬A")], [("belief", "B"), ("cnf", "B")]]

/-- Of two records with one text the first is loaded, although it is the second one which is
written without blanks. -/
theorem obtained_texts_repeated :
    ∃ base, ofStore (Json.spread repeatedRecords) = .ok base ∧ base.Obtained ∧
      base.beliefs.map (fun belief => (belief.text, belief.cnf)) = [("A", "A"), ("B", "B")] ∧
      base.texts.Nodup ∧ (∀ text ∈ base.texts, Text.IsTrimmed text) ∧
      (∀ text, (base.remove text).contains text = false) ∧
      ∃ records, storedRecords (Json.spread repeatedRecords) = .ok records ∧
        base.beliefs.map .ok =
          (firstRecords records).map fun record => Belief.ofRecord record.1 record.2 := by
  have listed : ((repeatedRecords.map Json.ofRecord).mapM Belief.ofJson).map (fun beliefs =>
      (ofList beliefs).beliefs.map fun belief => (belief.text, belief.cnf)) =
        .ok [("A", "A"), ("B", "B")] := by cbv
  cases read : (repeatedRecords.map Json.ofRecord).mapM Belief.ofJson with
  | error cause =>
    rw [read] at listed
    cases listed
  | ok beliefs =>
    rw [read] at listed
    have loaded : ofStore (Json.spread repeatedRecords) = .ok (ofList beliefs) := by
      rw [ofStore_spread, read]
    have obtained : (ofList beliefs).Obtained := .ofStore loaded
    obtain ⟨distinct, trimmed, removed, stored⟩ := obtained_texts obtained
    exact ⟨_, loaded, obtained, Except.ok.inj listed, distinct, trimmed, removed, stored _ loaded⟩

end Base
end BeliefRevision
