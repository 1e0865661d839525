import BeliefRevision.Proofs.Replaying
import BeliefRevision.Proofs.Sessions
import BeliefRevision.Store.Disk.Lemmas
import BeliefRevision.Terminal.Run
import Mathlib

/-!
# A store which keeps up with its base

A run with a store saves its base whenever a command has changed it, and at no other time. What
counts is whether the base has changed, not what was reported: the base is compared before and
after each command, and the disk with what it was at the start.

Formulas among the arguments and lines of input are both answered as commands, one after another.
The facts are shown for one command and then for any number of commands, so that they hold at
every point of a run. A store which cannot be loaded ends a run before its first command.
-/

namespace BeliefRevision

/-- Taking out a belief which is there changes the base. -/
theorem Base.remove_ne_self {base : Base} {text : String} {belief : Belief}
    (found : base.find? text = some belief) : base.remove text ≠ base := by
  intro same
  have named : belief.text == Text.trim text :=
    List.find?_some (p := fun belief : Belief => belief.text == Text.trim text) found
  have member : belief ∈ base.beliefs := List.mem_of_find?_eq_some found
  have shorter : (base.remove text).beliefs.length = base.beliefs.length - 1 :=
    List.length_eraseP_of_mem member named
  have nonempty : 0 < base.beliefs.length := List.length_pos_of_mem member
  rw [same] at shorter
  omega

/-- A revision through a session counts as a change exactly when the base of the session has
become another. -/
theorem Session.changed_iff {session next : Session} {text : String} {revision : Revision}
    (revised : session.revise text = .ok (next, revision)) :
    revision.changed = true ↔ next.base ≠ session.base := by
  obtain ⟨ended, sameBase⟩ := Session.revise_eq_ok revised
  obtain ⟨formula, parsed⟩ := Revision.parse_of_revise ended
  rw [sameBase]
  exact (Revision.ends_of_revise parsed ended).changed_iff

namespace Disk

/-- The disk after an attempt to store the base at the path. -/
def afterSave (disk : Disk) (base : Base) (path : String) : Disk :=
  match base.save disk path with
  | .ok stored => stored
  | .error _ => disk

/-- Where a path can be written to, the base is stored there. -/
theorem write_afterSave {disk : Disk} {path : String} (writable : disk.Writable path)
    (base : Base) : disk.write path base.toStore = .ok (disk.afterSave base path) := by
  obtain ⟨after, written⟩ := writable base.toStore
  simp only [afterSave, Base.save, written]

end Disk

namespace Surface

variable (surface : Surface)

/-- Printing leaves the disk as it is. -/
@[simp] theorem disk_perform_print (text : String) :
    (surface.perform (.print text)).disk = surface.disk := rfl

/-- A complaint leaves the disk as it is. -/
@[simp] theorem disk_perform_complain (text : String) :
    (surface.perform (.complain text)).disk = surface.disk := rfl

/-- Saving leaves the disk with the base stored, or as it was if the disk refuses. -/
@[simp] theorem disk_perform_save (base : Base) (path : String) :
    (surface.perform (.save base path)).disk = surface.disk.afterSave base path := by
  cases saved : base.save surface.disk path <;> simp only [perform, Disk.afterSave, saved]

end Surface

namespace Run

/-- What becomes of the base and the disk in a command: both stay as they are, or the base is
another one and was to be stored. -/
inductive Follows (path : String) (run next : Run) : Prop where
  | kept (sameBase : next.session.base = run.session.base)
      (sameDisk : next.surface.disk = run.surface.disk)
  | changed (different : next.session.base ≠ run.session.base)
      (saved : next.surface.disk = run.surface.disk.afterSave next.session.base path)

section
variable {options : Options} {path : String} (stored : options.store = some path)
include stored

/-- A revision is stored if it is a change, whatever is printed about it. -/
theorem perform_revise {run : Run} {text : String} {next : Session} {revision : Revision}
    (revised : run.session.revise text = .ok (next, revision)) :
    (run.perform options (.revise text)).session = next ∧
      (run.perform options (.revise text)).surface.disk =
        if revision.changed then run.surface.disk.afterSave next.base path
        else run.surface.disk := by
  constructor
  · simp only [perform, Session.answer, Session.answerRevise, revised]
  · by_cases changed : revision.changed = true <;> by_cases detailed : options.detail > 0 <;>
      simp [perform, Session.answer, Session.answerRevise, revised, Action.saves, stored, changed,
        detailed]

/-- A revision which is refused or changes nothing leaves base and disk alone. One which changes the
base is stored. -/
theorem perform_revise_follows (run : Run) (text : String) :
    Follows path run (run.perform options (.revise text)) := by
  cases revised : run.session.revise text with
  | error cause =>
    simp only [perform, Session.answer, Session.answerRevise, revised]
    exact .kept rfl rfl
  | ok result =>
    obtain ⟨next, revision⟩ := result
    obtain ⟨isNext, disk⟩ := perform_revise stored revised
    have changedIff := Session.changed_iff revised
    by_cases changed : revision.changed = true
    · rw [if_pos changed] at disk
      refine .changed ?_ ?_
      · rw [isNext]
        exact changedIff.mp changed
      · rw [disk, isNext]
    · rw [if_neg changed] at disk
      refine .kept ?_ disk
      rw [isNext]
      exact of_not_not (mt changedIff.mpr changed)

/-- A removal of what is not there leaves base and disk alone. Any other one changes the base and is
stored. -/
theorem perform_delete_follows (run : Run) (text : String) :
    Follows path run (run.perform options (.delete text)) := by
  cases found : run.session.base.find? text with
  | none =>
    simp only [perform, Session.answer, Session.answerDelete, Session.contract, found]
    exact .kept rfl rfl
  | some belief =>
    simp only [perform, Session.answer, Session.answerDelete, Session.contract, found,
      Action.saves, stored]
    exact .changed (Base.remove_ne_self found) (by simp)

/-- One step of a run: the base and the disk stay as they are, or the changed base is stored. -/
theorem perform_follows (run : Run) (command : Command) :
    Follows path run (run.perform options command) := by
  cases command with
  | revise text => exact perform_revise_follows stored run text
  | delete text => exact perform_delete_follows stored run text
  | query text =>
    refine .kept rfl ?_
    simp only [perform, Session.answer, Session.answerQuery]
    split <;> rfl
  | normalize text =>
    refine .kept rfl ?_
    simp only [perform, Session.answer, Session.answerNormalize]
    split <;> rfl
  | list => exact .kept rfl rfl
  | quit => exact .kept rfl rfl
  | blank => exact .kept rfl rfl

end

/-- The run after the commands, one after another. -/
def performAll (options : Options) (run : Run) (commands : List Command) : Run :=
  commands.foldl (perform options) run

/-- A last command is performed on the run which the others leave. -/
theorem performAll_concat (options : Options) (run : Run) (commands : List Command)
    (command : Command) :
    run.performAll options (commands ++ [command]) =
      (run.performAll options commands).perform options command := by
  simp [performAll]

/-- One of the commands, when its turn came, changed the base. -/
def Changes (options : Options) (run : Run) (commands : List Command) : Prop :=
  ∃ before command, before ++ [command] <+: commands ∧
    (run.performAll options (before ++ [command])).session.base ≠
      (run.performAll options before).session.base

/-- Where there is no command, none changes the base. -/
theorem not_changes_nil (options : Options) (run : Run) : ¬ run.Changes options [] := by
  rintro ⟨before, command, isPrefix, _⟩
  simp at isPrefix

/-- The last command changed the base, or one before it did. -/
theorem changes_concat {options : Options} {run : Run} {commands : List Command}
    {command : Command} :
    run.Changes options (commands ++ [command]) ↔ run.Changes options commands ∨
      ((run.performAll options commands).perform options command).session.base ≠
        (run.performAll options commands).session.base := by
  rw [← performAll_concat]
  constructor
  · rintro ⟨before, last, isPrefix, different⟩
    rcases List.prefix_concat_iff.mp isPrefix with all | earlier
    · obtain ⟨rfl, same⟩ := List.append_inj' all rfl
      obtain rfl := List.singleton_inj.mp same
      exact .inr different
    · exact .inl ⟨before, last, earlier, different⟩
  · rintro (⟨before, last, earlier, different⟩ | different)
    · exact ⟨before, last, earlier.trans (List.prefix_append _ _), different⟩
    · exact ⟨commands, command, List.prefix_refl _, different⟩

/-- The disk of a run, compared with the disk at its start. As long as the base did not change
they are equal. Once it has changed, the disk is the one from the start with the base stored at
the path and no other difference, provided that the path can be written to. -/
structure UpToDate (path : String) (start : Disk) (changed : Prop) (run : Run) : Prop where
  untouched : ¬ changed → run.surface.disk = start
  written : changed → start.Writable path →
    start.write path run.session.base.toStore = .ok run.surface.disk
  readable : changed → start.Writable path →
    run.surface.disk.read path = .ok run.session.base.toStore

/-- At the path is read what was written there. -/
theorem UpToDate.of_written {path : String} {start : Disk} {changed : Prop} {run : Run}
    (untouched : ¬ changed → run.surface.disk = start)
    (written : changed → start.Writable path →
      start.write path run.session.base.toStore = .ok run.surface.disk) :
    UpToDate path start changed run where
  untouched
  written
  readable isChanged writable := Disk.read_of_write (written isChanged writable)

/-- A path which could be written to at the start leads to the same file still. -/
theorem UpToDate.write_eq {path : String} {start : Disk} {changed : Prop} {run : Run}
    (upToDate : UpToDate path start changed run) (writable : start.Writable path) (text : String) :
    run.surface.disk.write path text = start.write path text := by
  by_cases isChanged : changed
  · exact Disk.write_of_write (upToDate.written isChanged writable) text
  · rw [upToDate.untouched isChanged]

/-- One step keeps the disk up to date. -/
theorem UpToDate.step {path : String} {start : Disk} {changed : Prop} {run next : Run}
    (upToDate : UpToDate path start changed run) (follows : Follows path run next) :
    UpToDate path start (changed ∨ next.session.base ≠ run.session.base) next := by
  cases follows with
  | kept sameBase sameDisk =>
    refine .of_written ?_ ?_
    · intro unchanged
      rw [sameDisk]
      exact upToDate.untouched fun earlier => unchanged (.inl earlier)
    · intro isChanged writable
      have earlier : changed := isChanged.resolve_right (not_not_intro sameBase)
      rw [sameBase, sameDisk]
      exact upToDate.written earlier writable
  | changed different saved =>
    refine .of_written ?_ ?_
    · intro unchanged
      exact absurd (.inr different) unchanged
    · intro _ writable
      have stillWritable : run.surface.disk.Writable path := by
        intro text
        rw [upToDate.write_eq writable]
        exact writable text
      rw [saved, ← upToDate.write_eq writable]
      exact Disk.write_afterSave stillWritable next.session.base

/-- After any number of commands the disk is up to date. The induction takes off the last
command, as whether the base has changed so far is asked after each. -/
theorem performAll_upToDate {options : Options} {path : String}
    (stored : options.store = some path) (run : Run) (commands : List Command) :
    UpToDate path run.surface.disk (run.Changes options commands)
      (run.performAll options commands) := by
  induction commands using List.reverseRecOn with
  | nil =>
    refine .of_written (fun _ => rfl) ?_
    intro changed
    exact absurd changed (not_changes_nil options run)
  | append_singleton commands command inductionHypothesis =>
    rw [performAll_concat, changes_concat]
    exact inductionHypothesis.step (perform_follows stored _ command)

/-- The commands of the lines which are answered. Those are the lines before the first which asks
to quit or is no text. -/
def answered : List (Option String) → List Command
  | [] => []
  | none :: _ => []
  | some line :: rest =>
    match Command.ofLine line with
    | .quit => []
    | command => command :: answered rest

/-- The commands of a run: the formulas among the arguments, or else the lines. -/
def commands (options : Options) (input : List (Option String)) : List Command :=
  if options.formulas.isEmpty then answered input else options.formulas.map .revise

/-- A run before its first command. -/
def start (options : Options) (base : Base) (disk : Disk) : Run :=
  ⟨⟨options.settings, base⟩, ⟨disk, greeting options, ""⟩⟩

/-- A run over lines performs the commands of those which are answered, and no other ones. -/
theorem lines_eq (options : Options) (run : Run) (input : List (Option String)) :
    (run.lines options input).1 = run.performAll options (answered input) := by
  induction input generalizing run with
  | nil => rfl
  | cons line rest inductionHypothesis =>
    cases line with
    | none => rfl
    | some text =>
      cases asked : Command.ofLine text with
      | quit => simp only [lines, answered, asked, performAll, List.foldl_nil]
      | _ =>
        simp only [lines, answered, asked, inductionHypothesis, performAll, List.foldl_cons]

/-- A run over formulas revises by one after another. -/
theorem formulas_eq (options : Options) (run : Run) (texts : List String) :
    run.formulas options texts = run.performAll options (texts.map .revise) := by
  simp only [formulas, performAll, List.foldl_map]

/-- A run ends with the disk which its commands left. -/
theorem disk_withOptions {options : Options} {disk : Disk} {base : Base}
    (loaded : loadBase options disk = .ok base) (input : List (Option String)) :
    (withOptions options input disk).2.disk =
      ((start options base disk).performAll options (commands options input)).surface.disk := by
  by_cases none : options.formulas.isEmpty = true
  · have answers := lines_eq options (start options base disk) input
    simp only [withOptions, loaded, commands, none, if_true]
    rw [← answers, start]
    split <;> simp [*]
  · simp only [withOptions, loaded, commands, none]
    rw [formulas_eq, start]
    rfl

/-- The store of a run never lags behind, and is not touched without need. A store which cannot
be loaded ends the run, before anything else is done and with the disk as it was. Otherwise the
store is up to date when the run starts, after each command and when the run ends. -/
theorem withOptions_upToDate {options : Options} {path : String}
    (stored : options.store = some path) (input : List (Option String)) (disk : Disk) :
    (∀ error, Base.load disk path = .error error →
      withOptions options input disk = (1, ⟨disk, "", error.message ++ "\n"⟩)) ∧
    ∀ base, Base.load disk path = .ok base →
      (withOptions options input disk).2.disk =
        ((start options base disk).performAll options (commands options input)).surface.disk ∧
      ∀ processed, processed <+: commands options input →
        UpToDate path disk ((start options base disk).Changes options processed)
          ((start options base disk).performAll options processed) := by
  have sameLoad : loadBase options disk = Base.load disk path := by
    simp only [loadBase, stored]
  constructor
  · intro error failed
    rw [← sameLoad] at failed
    simp only [withOptions, failed]
  · intro base loaded
    rw [← sameLoad] at loaded
    refine ⟨disk_withOptions loaded input, ?_⟩
    intro processed _
    exact performAll_upToDate stored (start options base disk) processed

/-- A formula is stored in a file which did not exist, and stays there through a query and a line
which is no text. A file which is no text is left as it is. -/
theorem withOptions_upToDate_new_store :
    (withOptions { store := some "kb" } [some "A", some "?A", none]
        (.ofEntries [])).2.disk.read "kb" =
      .ok (Base.mk [.ofNormalForm "A" (.atom ⟨"A", by decide⟩)]).toStore ∧
    withOptions { store := some "kb" } [some "A"] (.ofEntries [("kb", .binary)]) =
      (1, ⟨.ofEntries [("kb", .binary)], "", "unable to access store: invalid data\n"⟩) := by
  constructor
  · have absent : Base.load (.ofEntries []) "kb" = .ok .empty := by cbv
    obtain ⟨sameDisk, each⟩ := (@withOptions_upToDate { store := some "kb" } "kb" rfl
      [some "A", some "?A", none] (.ofEntries [])).2 .empty absent
    have asked : commands { store := some "kb" } [some "A", some "?A", none] =
        [.revise "A"] ++ [.query "A"] := by cbv
    have writable : (Disk.ofEntries []).Writable "kb" := fun text =>
      ⟨_, Disk.write_eq_ok_iff.mpr ⟨Place.here.child "kb", by cbv, .inl (by cbv), rfl⟩⟩
    -- The base is empty, and so the formula is added.
    have parsed : Formula.parse (Text.trim "A") = .ok (.atom ⟨"A", by decide⟩) := by cbv
    have undecided : ¬ Base.empty.Entails (.atom ⟨"A", by decide⟩) := fun follows =>
      Bool.false_ne_true (follows (fun _ => false) rfl)
    have admitted : Base.empty.Admits (.atom ⟨"A", by decide⟩) := ⟨fun _ => true, rfl, rfl⟩
    have revised := @Revision.revise_of_admits {} .empty "A" _ parsed List.not_mem_nil undecided
      admitted
    have added : ((start { store := some "kb" } .empty (.ofEntries [])).performAll
        { store := some "kb" } [.revise "A"]).session.base =
          ⟨[.ofNormalForm "A" (.atom ⟨"A", by decide⟩)]⟩ := by
      simp only [performAll, List.foldl_cons, List.foldl_nil, perform, Session.answer,
        Session.answerRevise, Session.revise, start, revised]
      rfl
    have changes : (start { store := some "kb" } .empty (.ofEntries [])).Changes
        { store := some "kb" } ([.revise "A"] ++ [.query "A"]) :=
      ⟨[], .revise "A", List.prefix_append _ _, by rw [List.nil_append, added]; decide⟩
    have stored := (each _ (List.prefix_refl _)).readable (asked ▸ changes) writable
    rw [sameDisk, stored, asked, performAll_concat]
    exact congrArg (fun base : Base => Except.ok base.toStore) added
  · have unreadable : Base.load (.ofEntries [("kb", .binary)]) "kb" =
        .error (.file .notText) := by cbv
    exact (withOptions_upToDate rfl [some "A"] _).1 _ unreadable

end Run
end BeliefRevision
