import BeliefRevision.Terminal.Input
import Mathlib.Data.List.Basic

/-!
# Lines that were written

Texts which are written one after another, each ended by a line feed, are read back as the lines
of the input. Bytes are split before they are decoded, which is safe: the byte of the line feed
occurs in no other character.
-/

namespace BeliefRevision.Input

/-- The texts one after another, each ended by a line feed. -/
def ofLines (texts : List String) : String := String.join (texts.map (· ++ "\n"))

/-- The byte of the line feed occurs in the line feed alone, since the bytes of a character which
has several of them are all beyond the codes of ASCII. -/
theorem eq_lineFeed_of_mem {character : Char}
    (member : (0x0A : UInt8) ∈ String.utf8EncodeChar character) : character = '\n' := by
  have value {code : Nat} (same : (0x0A : UInt8) = UInt8.ofNat code) : code % 256 = 10 := by
    simpa using (congrArg UInt8.toNat same).symm
  unfold String.utf8EncodeChar at member
  dsimp only at member
  split_ifs at member with single double triple <;>
    simp only [List.mem_cons, List.not_mem_nil, or_false] at member
  · have isLineFeed : character.toNat % 256 = 10 := value member
    have small : character.toNat ≤ 127 := single
    exact Char.toNat_inj.mp (show character.toNat = 10 by omega)
  -- Each byte of a longer sequence has its highest bit set, which ten has not.
  · rcases member with same | same <;> have := value same <;> omega
  · rcases member with same | same | same <;> have := value same <;> omega
  · rcases member with same | same | same | same <;> have := value same <;> omega

/-- The loop which lists bytes puts those from the index on behind those before it. -/
theorem toList_loop_eq (bytes : ByteArray) (index : Nat) (before : List UInt8) :
    ByteArray.toList.loop bytes index before =
      before.reverse ++ bytes.data.toList.drop index := by
  fun_induction ByteArray.toList.loop bytes index before with
  | case1 index before inside inductionHypothesis =>
    have position : index < bytes.data.toList.length := inside
    rw [inductionHypothesis, List.drop_eq_getElem_cons position]
    simp [ByteArray.get!, inside]
  | case2 index before outside =>
    rw [List.drop_eq_nil_of_le (Nat.le_of_not_lt outside), List.append_nil]

/-- The bytes are listed as they are stored. -/
theorem toList_eq (bytes : ByteArray) : bytes.toList = bytes.data.toList := by
  rw [ByteArray.toList, toList_loop_eq, List.reverse_nil, List.drop_zero, List.nil_append]

/-- The bytes of a text are those of its characters, one after another. -/
theorem toList_toUTF8 (text : String) :
    text.toUTF8.toList = text.toList.flatMap String.utf8EncodeChar := by
  rw [toList_eq, String.toUTF8_eq_toByteArray, ← String.utf8Encode_toList, List.utf8Encode,
    List.toList_data_toByteArray]

/-- The bytes of a text are decoded to the text. -/
theorem decode_toUTF8 (text : String) : decode text.toUTF8.toList.reverse = some text := by
  rw [decode, List.reverse_reverse, toList_eq, Array.toArray_toList, String.toUTF8_eq_toByteArray]
  exact dif_pos text.isValidUTF8

/-- A text of one line has no byte of a line feed. -/
theorem lineFeed_not_mem {text : String} (oneLine : '\n' ∉ text.toList) :
    (0x0A : UInt8) ∉ text.toUTF8.toList := by
  rw [toList_toUTF8, List.mem_flatMap]
  rintro ⟨character, inside, member⟩
  exact oneLine (eq_lineFeed_of_mem member ▸ inside)

/-- Bytes up to a line feed are gathered for the line. -/
theorem split_append {bytes : List UInt8} (oneLine : (0x0A : UInt8) ∉ bytes)
    (found : List (Option String)) (line rest : List UInt8) :
    split found line (bytes ++ rest) = split found (bytes.reverse ++ line) rest := by
  induction bytes generalizing line with
  | nil => rfl
  | cons byte bytes inductionHypothesis =>
    have different : byte ≠ 0x0A := fun same => oneLine (same ▸ List.mem_cons_self)
    have others : (0x0A : UInt8) ∉ bytes := fun member => oneLine (List.mem_cons_of_mem byte member)
    rw [List.cons_append, split, if_neg different, inductionHypothesis others,
      List.reverse_cons, List.append_assoc]
    rfl

/-- Each text which is written as a line is found again as a line, in order. The induction takes off
the first line, up to its line feed. -/
theorem split_ofLines {texts : List String} (oneLine : ∀ text ∈ texts, '\n' ∉ text.toList)
    (found : List (Option String)) :
    split found [] (ofLines texts).toUTF8.toList = found.reverse ++ texts.map some := by
  induction texts generalizing found with
  | nil => simp [ofLines, split]
  | cons text texts inductionHypothesis =>
    have bytes : (ofLines (text :: texts)).toUTF8.toList =
        text.toUTF8.toList ++ 0x0A :: (ofLines texts).toUTF8.toList := by
      have written : (ofLines (text :: texts)).toList =
          text.toList ++ '\n' :: (ofLines texts).toList := by
        simp [ofLines]
      have feed : String.utf8EncodeChar '\n' = [0x0A] := by decide
      simp only [toList_toUTF8, written, List.flatMap_append, List.flatMap_cons, feed]
      rfl
    have first : (0x0A : UInt8) ∉ text.toUTF8.toList :=
      lineFeed_not_mem (oneLine text List.mem_cons_self)
    have others : ∀ other ∈ texts, '\n' ∉ other.toList :=
      fun other member => oneLine other (List.mem_cons_of_mem text member)
    rw [bytes, split_append first, split, if_pos rfl, List.append_nil, decode_toUTF8,
      inductionHypothesis others]
    simp

/-- Texts of one line each are read back as they were written. -/
theorem lines_ofLines {texts : List String} (oneLine : ∀ text ∈ texts, '\n' ∉ text.toList) :
    lines (ofLines texts).toUTF8 = texts.map some :=
  split_ofLines oneLine []

end BeliefRevision.Input
