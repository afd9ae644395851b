import LineCalc.Proofs.Cut
import LineCalc.Text.Lines
import Mathlib.Data.List.Basic

/-!
# Lines that are written and read back

Lines that are written one after the other are found again in the bytes of the text, if none holds a newline
and none ends with a carriage return, which would be taken for a part of the ending.
-/

set_option autoImplicit false

namespace LineCalc.Text

def bytes (text : String) : List UInt8 :=
  text.toUTF8.data.toList

private theorem bytes_eq_flatMap (text : String) :
    bytes text = text.toList.flatMap String.utf8EncodeChar := by
  rw [bytes, String.toUTF8_eq_toByteArray, ← String.utf8Encode_toList]
  exact List.toList_data_toByteArray

@[simp] theorem bytes_append (first second : String) :
    bytes (first ++ second) = bytes first ++ bytes second := by
  simp only [bytes_eq_flatMap, String.toList_append, List.flatMap_append]

theorem decode?_bytes (text : String) : decode? (bytes text) = some text := by
  have same : (⟨(bytes text).toArray⟩ : ByteArray) = text.toByteArray := rfl
  rw [decode?, same, String.fromUTF8?, dif_pos text.isValidUTF8]
  rfl

/-! ## Bytes of single characters -/

/-- A byte below 128 is all that stands for its character. -/
private theorem utf8EncodeChar_of_mem {byte : UInt8} {character : Char} (ascii : byte.toNat < 128)
    (member : byte ∈ String.utf8EncodeChar character) :
    String.utf8EncodeChar character = [byte] ∧ character.toNat = byte.toNat := by
  have number : character.val.toNat = character.toNat := rfl
  unfold String.utf8EncodeChar at member ⊢
  simp only [number] at member ⊢
  split at member
  · rename_i single
    obtain rfl := List.mem_singleton.mp member
    rw [if_pos single]
    refine ⟨rfl, ?_⟩
    rw [UInt8.toNat_ofNat']
    omega
  · exfalso
    split at member
    · simp only [List.mem_cons, List.not_mem_nil, or_false] at member
      rcases member with rfl | rfl <;> rw [UInt8.toNat_ofNat'] at ascii <;> omega
    · split at member
      · simp only [List.mem_cons, List.not_mem_nil, or_false] at member
        rcases member with rfl | rfl | rfl <;> rw [UInt8.toNat_ofNat'] at ascii <;> omega
      · simp only [List.mem_cons, List.not_mem_nil, or_false] at member
        rcases member with rfl | rfl | rfl | rfl <;> rw [UInt8.toNat_ofNat'] at ascii <;> omega

theorem newline_mem_bytes_iff {text : String} : newline ∈ bytes text ↔ '\n' ∈ text.toList := by
  rw [bytes_eq_flatMap, List.mem_flatMap]
  constructor
  · rintro ⟨character, member, inside⟩
    have number := (utf8EncodeChar_of_mem (by decide) inside).2
    obtain rfl : character = '\n' := Char.toNat_inj.mp number
    exact member
  · intro member
    exact ⟨'\n', member, List.mem_singleton_self newline⟩

theorem head?_bytes {text : String} {character : Char} {byte : UInt8}
    (single : String.utf8EncodeChar character = [byte]) (opens : text.toList.head? = some character) :
    (bytes text).head? = some byte := by
  obtain ⟨rest, split⟩ := List.head?_eq_some_iff.mp opens
  rw [bytes_eq_flatMap, split, List.flatMap_cons, single]
  rfl

private theorem getLast?_bytes_ne {text : String} (apart : text.toList.getLast? ≠ some '\r') :
    (bytes text).getLast? ≠ some carriageReturn := by
  rw [bytes_eq_flatMap]
  rcases List.eq_nil_or_concat text.toList with none | ⟨before, last, split⟩
  · rw [none]
    exact nofun
  · rw [split, List.concat_eq_append, List.getLast?_concat] at apart
    rw [split, List.concat_eq_append, List.flatMap_append, List.flatMap_singleton,
      List.getLast?_append_of_ne_nil _ String.utf8EncodeChar_ne_nil]
    intro ended
    have number := (utf8EncodeChar_of_mem (by decide) (List.mem_of_getLast? ended)).2
    exact apart (congrArg some (Char.toNat_inj.mp number))

/-! ## Lines -/

/-- A text that is one line: no newline breaks it, and its last character is not taken for a part of the
ending. -/
structure IsLine (line : String) : Prop where
  unbroken : '\n' ∉ line.toList
  unended : line.toList.getLast? ≠ some '\r'

private theorem bytes_newline : bytes "\n" = [newline] :=
  rfl

private theorem joinLines_cons (line : String) (lines : List String) :
    joinLines (line :: lines) = line ++ "\n" ++ joinLines lines := by
  simp only [joinLines, List.map_cons, String.join_cons]

theorem joinLines_append (before after : List String) :
    joinLines (before ++ after) = joinLines before ++ joinLines after := by
  simp only [joinLines, List.map_append, String.join_append]

private theorem toList_joinLines (lines : List String) :
    (joinLines lines).toList = ['\n'].intercalate (lines.map String.toList ++ [[]]) := by
  induction lines with
  | nil => rfl
  | cons line lines ih =>
    rw [joinLines_cons, String.toList_append, String.toList_append, ih, List.map_cons, List.cons_append]
    cases lines with
    | nil => simp
    | cons next lines => simp

/-- The lines of a text that is written from lines, with nothing behind the last newline. -/
theorem splitOn_joinLines {lines : List String} (unbroken : ∀ line ∈ lines, '\n' ∉ line.toList) :
    (joinLines lines).toList.splitOn '\n' = lines.map String.toList ++ [[]] := by
  rw [toList_joinLines]
  apply List.splitOn_intercalate
  · intro letters member
    rcases List.mem_append.mp member with inside | last
    · obtain ⟨line, found, rfl⟩ := List.mem_map.mp inside
      exact unbroken line found
    · rw [List.mem_singleton.mp last]
      exact nofun
  · exact List.append_ne_nil_of_right_ne_nil _ (List.cons_ne_nil [] [])

private theorem splitLines_line {line : String} (single : IsLine line) (rest : List UInt8) :
    splitLines (bytes line ++ newline :: rest) = bytes line :: splitLines rest := by
  have taken := (cut_separator (mt newline_mem_bytes_iff.mp single.unbroken) rest).1
  have kept : dropCarriageReturn (bytes line) = bytes line :=
    if_neg (getLast?_bytes_ne single.unended)
  have ended : newline ∈ bytes line ++ newline :: rest :=
    List.mem_append_right _ List.mem_cons_self
  have rest_eq : (bytes line ++ newline :: rest).drop ((bytes line).length + 1) = rest := by
    rw [List.drop_append, List.drop_eq_nil_of_le (by omega)]
    simp
  generalize bytes line ++ newline :: rest = stream at taken ended rest_eq
  cases stream with
  | nil => cases ended
  | cons first others =>
    rw [splitLines]
    simp only [taken, if_pos ended, kept, rest_eq]

theorem splitLines_joinLines {lines : List String} (single : ∀ line ∈ lines, IsLine line) :
    splitLines (bytes (joinLines lines)) = lines.map bytes := by
  induction lines with
  | nil =>
    have none : bytes (joinLines []) = [] := rfl
    rw [none, splitLines, List.map_nil]
  | cons line lines ih =>
    obtain ⟨first, others⟩ := List.forall_mem_cons.mp single
    rw [joinLines_cons, bytes_append, bytes_append, bytes_newline, List.append_assoc,
      List.singleton_append, splitLines_line first, ih others, List.map_cons]

end LineCalc.Text
