import BehaviorTree.Event.Log

/-!
Texts as lines of bytes. Lines that were put behind each other, each with its end, are split and
decoded into the same lines again.
-/

namespace BehaviorTree.Text

/-! Texts as bytes. -/

theorem to_list_loop (bytes : ByteArray) (index : Nat) (seen : List UInt8) :
    ByteArray.toList.loop bytes index seen = seen.reverse ++ bytes.data.toList.drop index := by
  fun_induction ByteArray.toList.loop bytes index seen with
  | case1 index seen inside ih =>
      have there : index < bytes.data.toList.length := by simpa using inside
      rw [ih, List.drop_eq_getElem_cons there, List.reverse_cons, List.append_assoc]
      congr 2
      simp [ByteArray.get!, getElem!_pos bytes.data index inside]
  | case2 index seen beyond =>
      have there : bytes.data.toList.length ≤ index := by simpa using beyond
      rw [List.drop_eq_nil_of_le there, List.append_nil]

theorem byte_list (bytes : ByteArray) : bytes.toList = bytes.data.toList :=
  to_list_loop bytes 0 []

/-- The bytes of a text are those of its characters. -/
theorem utf8_bytes (text : String) :
    text.toUTF8.toList = text.toList.flatMap String.utf8EncodeChar := by
  rw [byte_list, String.toUTF8_eq_toByteArray, ← String.utf8Encode_toList, List.utf8Encode,
    List.toList_data_toByteArray]

theorem of_utf8_bytes (text : String) :
    String.fromUTF8? ⟨text.toUTF8.toList.toArray⟩ = some text := by
  rw [byte_list, Array.toArray_toList, String.toUTF8_eq_toByteArray, String.fromUTF8?,
    dif_pos text.isValidUTF8]
  rfl

/-- Beyond ASCII no byte of a character is an ASCII one. -/
theorem high_bytes {char : Char} (wide : 0x80 ≤ char.toNat) :
    ∀ byte ∈ String.utf8EncodeChar char, 0x80 ≤ byte.toNat := by
  have beyond : ¬char.val.toNat ≤ 0x7f := Nat.not_le.mpr wide
  have marked : ∀ part bits : Nat, 0x80 ≤ bits → part + bits < 0x100 →
      0x80 ≤ (UInt8.ofNat (part + bits)).toNat := by
    intro part bits high fits
    rw [UInt8.toNat_ofNat_of_lt' fits]
    omega
  rw [String.utf8EncodeChar, if_neg beyond]
  split
  · simp only [List.forall_mem_cons]
    exact ⟨marked _ _ (by decide) (by omega), marked _ _ (by decide) (by omega), by simp⟩
  split
  · simp only [List.forall_mem_cons]
    exact ⟨marked _ _ (by decide) (by omega), marked _ _ (by decide) (by omega),
      marked _ _ (by decide) (by omega), by simp⟩
  · simp only [List.forall_mem_cons]
    exact ⟨marked _ _ (by decide) (by omega), marked _ _ (by decide) (by omega),
      marked _ _ (by decide) (by omega), marked _ _ (by decide) (by omega), by simp⟩

/-- An ASCII byte of a character is all of it. -/
theorem low_byte {char : Char} {byte : UInt8} (low : byte.toNat < 0x80)
    (inside : byte ∈ String.utf8EncodeChar char) :
    char.toNat = byte.toNat ∧ String.utf8EncodeChar char = [byte] := by
  have narrow : char.val.toNat ≤ 0x7f := by
    apply Nat.le_of_not_lt
    intro wide
    exact absurd (high_bytes wide byte inside) (Nat.not_le.mpr low)
  have single : String.utf8EncodeChar char = [UInt8.ofNat char.toNat] := by
    rw [String.utf8EncodeChar, if_pos narrow]
    rfl
  rw [single, List.mem_singleton] at inside
  refine ⟨?_, inside ▸ single⟩
  have fits : char.toNat < UInt8.size := Nat.lt_of_le_of_lt narrow (by decide)
  rw [inside, UInt8.toNat_ofNat_of_lt' fits]

/-! Lines and their ends. -/

section

variable {Item : Type} [DecidableEq Item] {mark : Item} {line : List Item}

theorem lines_within_append (whole : mark ∉ line) (seen rest : List Item) :
    linesWithin mark seen (line ++ mark :: rest) =
      (seen.reverse ++ line) :: linesWithin mark [] rest := by
  induction line generalizing seen with
  | nil => simp [linesWithin]
  | cons item others ih =>
      obtain ⟨apart, onward⟩ := not_or.mp (mt List.mem_cons.mpr whole)
      rw [List.cons_append, linesWithin, if_neg (Ne.symm apart), ih onward, List.reverse_cons,
        List.append_assoc, List.singleton_append]

theorem split_lines_ended {lines : List (List Item)} (whole : ∀ line ∈ lines, mark ∉ line) :
    splitLines mark (lines.flatMap (· ++ [mark])) = lines := by
  rw [splitLines]
  induction lines with
  | nil => rfl
  | cons line rest ih =>
      obtain ⟨first, others⟩ := List.forall_mem_cons.mp whole
      rw [List.flatMap_cons, List.append_assoc, List.singleton_append, lines_within_append first,
        ih others]
      rfl

end

/-- A line without the carriage return at its end, if there is one. -/
def withoutReturn (line : String) : String :=
  if line.toList.getLast? = some '\r' then .ofList line.toList.dropLast else line

theorem without_return_same {line : String} (free : '\r' ∉ line.toList) :
    withoutReturn line = line := by
  rw [withoutReturn, if_neg]
  exact fun ends => free (List.mem_of_getLast? ends)

end BehaviorTree.Text

namespace BehaviorTree.Event

open Text

theorem new_line_mem (text : String) : newLine ∈ text.toUTF8.toList ↔ '\n' ∈ text.toList := by
  rw [utf8_bytes, List.mem_flatMap]
  constructor
  · rintro ⟨char, inside, own⟩
    obtain ⟨same, -⟩ := low_byte (by decide) own
    have feed : char = '\n' := Char.toNat_inj.mp same
    exact feed ▸ inside
  · intro inside
    exact ⟨'\n', inside, by decide⟩

theorem trim_line_utf8 (text : String) :
    trimLine text.toUTF8.toList = (withoutReturn text).toUTF8.toList := by
  rw [trimLine, withoutReturn, utf8_bytes]
  rcases List.eq_nil_or_concat text.toList with empty | ⟨front, last, shown⟩
  · rw [empty, List.flatMap_nil, List.getLast?_nil, if_neg nofun, if_neg nofun, utf8_bytes, empty]
    rfl
  · rw [List.concat_eq_append] at shown
    rw [shown, List.flatMap_append, List.flatMap_singleton, List.getLast?_concat]
    by_cases ends : last = '\r'
    · have single : String.utf8EncodeChar '\r' = [carriageReturn] := rfl
      rw [ends, single, List.getLast?_concat, if_pos rfl, if_pos rfl, utf8_bytes,
        String.toList_ofList, List.dropLast_concat, List.dropLast_concat]
    · have otherwise : (front.flatMap String.utf8EncodeChar ++
          String.utf8EncodeChar last).getLast? ≠ some carriageReturn := by
        intro same
        rw [List.getLast?_append, List.getLast?_eq_some_getLast String.utf8EncodeChar_ne_nil,
          Option.some_or] at same
        have own := List.mem_of_getLast? ((List.getLast?_eq_some_getLast _).trans same)
        exact ends (Char.toNat_inj.mp (low_byte (by decide) own).1)
      rw [if_neg otherwise, if_neg (by simpa using ends), utf8_bytes, shown, List.flatMap_append,
        List.flatMap_singleton]

/-- The content of a log that has these lines. -/
def contentOf (lines : List String) : List UInt8 :=
  lines.flatMap fun line => line.toUTF8.toList ++ [newLine]

theorem text_lines_utf8 (lines : List String) :
    textLines (lines.map (·.toUTF8.toList)) = lines.map withoutReturn := by
  induction lines with
  | nil => rfl
  | cons line rest ih =>
      rw [List.map_cons, textLines, trim_line_utf8, of_utf8_bytes, ih, List.map_cons]

/-- The events of a log are those of its lines that can be read. -/
theorem of_content {lines : List String} (whole : ∀ line ∈ lines, '\n' ∉ line.toList) :
    ofContent (contentOf lines) = (lines.map withoutReturn).filterMap read := by
  have ended : contentOf lines = (lines.map (·.toUTF8.toList)).flatMap (· ++ [newLine]) := by
    rw [contentOf, List.flatMap_map]
  have split : splitLines newLine (contentOf lines) = lines.map (·.toUTF8.toList) := by
    rw [ended]
    apply split_lines_ended
    rw [List.forall_mem_map]
    exact fun line inside => mt (new_line_mem line).mp (whole line inside)
  rw [ofContent, split, text_lines_utf8]

end BehaviorTree.Event
