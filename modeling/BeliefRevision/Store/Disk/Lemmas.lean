import BeliefRevision.Store.Disk.Basic

/-!
# Writing and reading files

A path is followed through directories only, so it leads to the same place after a
file was put anywhere. The main statement is that a text which was written to a path
is what the path then reads.
-/

namespace BeliefRevision.Disk

/-- What stands at other places is not changed by putting an entry at one. -/
theorem lookup_filter_of_ne (entries : List (Place × Entry)) {place other : Place}
    (different : other ≠ place) :
    (entries.filter (·.1 != place)).lookup other = entries.lookup other := by
  induction entries with
  | nil => rfl
  | cons first rest inductionHypothesis =>
    obtain ⟨firstPlace, entry⟩ := first
    by_cases same : firstPlace = place
    · subst same
      have : (other == firstPlace) = false := by simpa using different
      simp [List.lookup_cons, inductionHypothesis, this]
    · simp [same, List.lookup_cons, inductionHypothesis]

/-- Putting something at a place changes nothing at any other place. -/
theorem entry_put_of_ne (disk : Disk) {place other : Place} (entry : Entry)
    (different : other ≠ place) : (disk.put place entry).entry other = disk.entry other := by
  have : (other == place) = false := by simpa using different
  simp [Disk.entry, put, List.lookup_cons, this, lookup_filter_of_ne _ different]

/-- A new entry stands at its place, unless that is where paths begin or has too long
a name. -/
theorem entry_put_self {disk : Disk} {place : Place} (entry : Entry)
    (notStart : disk.entry place ≠ .ok .directory)
    (fits : disk.entry place ≠ .error .nameTooLong) :
    (disk.put place entry).entry place = .ok entry := by
  unfold Disk.entry at notStart fits ⊢
  cases names : place.names with
  | nil => simp [names] at notStart
  | cons name above =>
    simp only [names] at fits ⊢
    split
    case isTrue long => simp [long] at fits
    case isFalse => simp [put]

/-- A path leads where it led before an entry was put in the place of anything but a
directory, as it was followed through directories only. -/
theorem follow_put {disk : Disk} {place : Place} (entry : Entry) {target : Target}
    (free : disk.entry place ≠ .ok .directory) {start : Place} {parts : List String}
    (leads : disk.follow start parts = .ok target) :
    (disk.put place entry).follow start parts = .ok target := by
  induction parts generalizing start with
  | nil => exact leads
  | cons part parts inductionHypothesis =>
    rw [follow] at leads ⊢
    split
    case isTrue stays => exact inductionHypothesis (by rwa [if_pos stays] at leads)
    case isFalse moves =>
      rw [if_neg moves] at leads
      split
      case isTrue up => exact inductionHypothesis (by rwa [if_pos up] at leads)
      case isFalse down =>
        rw [if_neg down] at leads
        split
        case isTrue last => rwa [if_pos last] at leads
        case isFalse inner =>
          rw [if_neg inner] at leads
          split at leads
          case h_1 found =>
            have different : start.child part ≠ place := fun same => free (same ▸ found)
            rw [entry_put_of_ne _ _ different, found]
            exact inductionHypothesis leads
          case h_2 => cases leads
          case h_3 => cases leads

/-- A path leads where it led before, unless what was put there hides a directory. So it may be
looked up again after a write. -/
theorem locate_put {disk : Disk} {place : Place} (entry : Entry) {path : String}
    {target : Target} (free : disk.entry place ≠ .ok .directory)
    (leads : disk.locate path = .ok target) :
    (disk.put place entry).locate path = .ok target := by
  unfold locate at leads ⊢
  split
  case isTrue empty => rwa [if_pos empty] at leads
  case isFalse nonempty =>
    rw [if_neg nonempty] at leads
    split
    case isTrue long => rwa [if_pos long] at leads
    case isFalse short =>
      rw [if_neg short] at leads
      split <;> exact follow_put entry free (by simpa [*] using leads)

/-- A file may stand at the place: there is one, or there is nothing and the name is short
enough. -/
def Takes (disk : Disk) (place : Place) : Prop :=
  disk.entry place = .error .notFound ∨ ∃ entry, disk.entry place = .ok entry ∧ entry ≠ .directory

/-- Where a file may stand there is no directory, and so no path leads through the place. -/
theorem Takes.ne_directory {disk : Disk} {place : Place} (takes : disk.Takes place) :
    disk.entry place ≠ .ok .directory := by
  rcases takes with nothing | ⟨entry, found, isFile⟩
  · simp [nothing]
  · simpa [found] using isFile

/-- Where a file may stand the name is one which the disk can hold. -/
theorem Takes.ne_nameTooLong {disk : Disk} {place : Place} (takes : disk.Takes place) :
    disk.entry place ≠ .error .nameTooLong := by
  rcases takes with nothing | ⟨entry, found, _⟩
  · simp [nothing]
  · simp [found]

/-- A write puts the text at the place where the path leads, if a file may stand there, and does
not succeed otherwise. -/
theorem write_eq_ok_iff {disk after : Disk} {path text : String} :
    disk.write path text = .ok after ↔ ∃ place, disk.locate path = .ok (.named place false) ∧
      disk.Takes place ∧ disk.put place (.file text) = after := by
  unfold write Takes
  cases leads : disk.locate path with
  | error cause => simp [bind, Except.bind]
  | ok target =>
    simp only [bind, Except.bind]
    match target with
    | .directory => simp
    | .named _ true => simp
    | .named place false =>
      simp only [Except.ok.injEq, Target.named.injEq, and_true, exists_eq_left']
      cases found : disk.entry place with
      | ok entry => cases entry <;> simp
      | error cause => cases cause <;> simp

/-- A file which may stand at a place stands there once it is put there. -/
theorem Takes.entry_put {disk : Disk} {place : Place} (takes : disk.Takes place) (text : String) :
    (disk.put place (.file text)).entry place = .ok (.file text) :=
  entry_put_self (.file text) takes.ne_directory takes.ne_nameTooLong

/-- What is written to a path is what the path then reads. -/
theorem read_of_write {disk after : Disk} {path text : String}
    (written : disk.write path text = .ok after) : after.read path = .ok text := by
  obtain ⟨place, leads, takes, rfl⟩ := write_eq_ok_iff.mp written
  simp [read, locate_put _ takes.ne_directory leads, takes.entry_put, bind, Except.bind]

/-- Any text can be written to the path. -/
def Writable (disk : Disk) (path : String) : Prop :=
  ∀ text, ∃ after, disk.write path text = .ok after

/-- A later write to a path replaces what was written there, and changes nothing else. -/
theorem write_of_write {disk after : Disk} {path text : String}
    (written : disk.write path text = .ok after) (next : String) :
    after.write path next = disk.write path next := by
  obtain ⟨place, leads, takes, rfl⟩ := write_eq_ok_iff.mp written
  have before : disk.write path next = .ok (disk.put place (.file next)) :=
    write_eq_ok_iff.mpr ⟨place, leads, takes, rfl⟩
  rw [before, write_eq_ok_iff]
  refine ⟨place, locate_put _ takes.ne_directory leads, ?_, ?_⟩
  · exact .inr ⟨.file text, takes.entry_put text, nofun⟩
  · simp [put, List.filter_filter]

end BeliefRevision.Disk
