import BeliefRevision.Text.Blank
import Mathlib.Data.List.DropRight

/-!
# Trimmed texts

A text is trimmed when no blank stands at either end of it. Trimming gives a trimmed
text and leaves trimmed texts as they are.
-/

namespace BeliefRevision.Text

/-- Neither the first character nor the last one is blank. -/
structure IsTrimmed (text : String) : Prop where
  first : ∀ character ∈ text.toList.head?, isBlank character = false
  last : ∀ character ∈ text.toList.getLast?, isBlank character = false

/-- Dropping blanks from the left does nothing where the first character is none. -/
theorem dropWhile_isBlank_eq {characters : List Char}
    (first : ∀ character ∈ characters.head?, isBlank character = false) :
    characters.dropWhile isBlank = characters := by
  cases characters with
  | nil => rfl
  | cons head tail => exact List.dropWhile_cons_of_neg (by simp [first head rfl])

/-- The characters from the first which is not blank begin with no blank. -/
theorem head?_dropWhile_isBlank (characters : List Char) :
    ∀ character ∈ (characters.dropWhile isBlank).head?, isBlank character = false := by
  intro character isHead
  have notBlank := List.head?_dropWhile_not isBlank characters
  rw [Option.mem_def.mp isHead] at notBlank
  exact notBlank

/-- A trimmed text has no blank at its front, where they were dropped first, and none at its end. -/
theorem isTrimmed_trim (text : String) : IsTrimmed (trim text) := by
  have kept : (trim text).toList = (text.toList.dropWhile isBlank).rdropWhile isBlank :=
    String.toList_ofList
  constructor
  · rw [kept]
    intro character isHead
    obtain ⟨rest, same⟩ := List.rdropWhile_prefix isBlank (text.toList.dropWhile isBlank)
    apply head?_dropWhile_isBlank text.toList
    rw [← same]
    exact List.mem_head?_append_of_mem_head? isHead
  · rw [kept]
    intro character isLast
    apply head?_dropWhile_isBlank (text.toList.dropWhile isBlank).reverse
    simpa [List.rdropWhile] using isLast

/-- A text without blanks at its ends is its own trimmed form. -/
theorem trim_eq_of_isTrimmed {text : String} (isTrimmed : IsTrimmed text) : trim text = text := by
  unfold trim trimmed
  rw [dropWhile_isBlank_eq isTrimmed.first, dropWhile_isBlank_eq, List.reverse_reverse,
    String.ofList_toList]
  rw [List.head?_reverse]
  exact isTrimmed.last

/-- A text with a character which is not blank is not trimmed to nothing. -/
theorem trim_ne_empty {text : String} {character : Char} (member : character ∈ text.toList)
    (notBlank : isBlank character = false) : trim text ≠ "" := by
  intro isEmpty
  have noneKept : (text.toList.dropWhile isBlank).rdropWhile isBlank = [] := by
    have kept : (trim text).toList = (text.toList.dropWhile isBlank).rdropWhile isBlank :=
      String.toList_ofList
    rw [← kept, isEmpty]
    rfl
  have allBlank := List.rdropWhile_eq_nil_iff.mp noneKept
  rw [← List.takeWhile_append_dropWhile (p := isBlank) (l := text.toList)] at member
  rcases List.mem_append.mp member with taken | dropped
  · rw [List.mem_takeWhile_imp taken] at notBlank
    cases notBlank
  · rw [allBlank character dropped] at notBlank
    cases notBlank

/-- Trimming once is enough. -/
@[simp] theorem trim_trim (text : String) : trim (trim text) = trim text :=
  trim_eq_of_isTrimmed (isTrimmed_trim text)

end BeliefRevision.Text
