import GateLevel.Simulation
import Mathlib.Data.List.Basic

/-! A sequence falls into lines in one way. The bytes of a text fall into the bytes of its lines, so
that a stream of text is read line by line. -/

namespace GateLevel

namespace Text

section

variable {α : Type} {feed ret : α} {text : List α} {lines : List (List α)}

def chomp [DecidableEq α] (ret : α) (line : List α) : List α :=
  if line.getLast? = some ret then line.dropLast else line

theorem chomp_cons_cons [DecidableEq α] (x y : α) (line : List α) :
    chomp ret (x :: y :: line) = x :: chomp ret (y :: line) := by
  simp only [chomp, List.getLast?_cons_cons]
  split <;> rfl

theorem chomp_concat [DecidableEq α] (line : List α) (x : α) :
    chomp ret (line ++ [x]) = if x = ret then line else line ++ [x] := by
  simp [chomp]

/-- The way a sequence falls into lines. Each ends at a `feed`, but for a last one that ends with
the sequence and is not empty then. -/
inductive Broken [DecidableEq α] (feed ret : α) : List α → List (List α) → Prop
  | empty : Broken feed ret [] []
  | unfinished {line : List α} (nonempty : line ≠ []) (free : feed ∉ line) :
      Broken feed ret line [line]
  | finished {line rest : List α} {lines : List (List α)} (free : feed ∉ line)
      (broken : Broken feed ret rest lines) :
      Broken feed ret (line ++ feed :: rest) (chomp ret line :: lines)

variable [DecidableEq α]

theorem linesBy_unfinished {line : List α} (nonempty : line ≠ []) (free : feed ∉ line) :
    linesBy feed ret line = [line] := by
  induction line with
  | nil => exact absurd rfl nonempty
  | cons x rest ih =>
      obtain ⟨here, later⟩ : x ≠ feed ∧ feed ∉ rest := by simpa [eq_comm] using free
      have unended : ¬ (x = ret ∧ rest.head? = some feed) :=
        fun ⟨_, ended⟩ => later (List.mem_of_head? ended)
      rw [linesBy, if_neg here, if_neg unended]
      cases rest with
      | nil => rfl
      | cons y rest => rw [ih (List.cons_ne_nil y rest) later]

theorem linesBy_finished {line : List α} (free : feed ∉ line) (rest : List α) :
    linesBy feed ret (line ++ feed :: rest) = chomp ret line :: linesBy feed ret rest := by
  induction line with
  | nil => simp [linesBy, chomp]
  | cons x line ih =>
      obtain ⟨here, later⟩ : x ≠ feed ∧ feed ∉ line := by simpa [eq_comm] using free
      rw [List.cons_append, linesBy, if_neg here]
      -- Only the last item before the feed can be a `ret` that is dropped.
      cases line with
      | nil =>
          by_cases ended : x = ret
          · simp [linesBy, chomp, ended]
          · simp [linesBy, chomp, ended]
      | cons y line =>
          have unended : ¬ (x = ret ∧ (y :: line ++ feed :: rest).head? = some feed) := by
            rintro ⟨_, ended⟩
            exact later (by simpa [eq_comm] using Or.inl (Option.some.inj ended))
          rw [if_neg unended, ih later, chomp_cons_cons]

theorem Broken.linesBy_eq (broken : Broken feed ret text lines) :
    linesBy feed ret text = lines := by
  induction broken with
  | empty => rfl
  | unfinished nonempty free => exact linesBy_unfinished nonempty free
  | finished free _ ih => rw [linesBy_finished free, ih]

theorem broken_linesBy (feed ret : α) (text : List α) :
    Broken feed ret text (linesBy feed ret text) := by
  induction size : text.length using Nat.strongRecOn generalizing text with
  | _ size ih =>
      by_cases member : feed ∈ text
      · obtain ⟨line, rest, rfl, free⟩ := List.eq_append_cons_of_mem member
        rw [linesBy_finished free]
        refine .finished free (ih rest.length ?_ rest rfl)
        rw [← size, List.length_append, List.length_cons]
        omega
      · by_cases nonempty : text = []
        · rw [nonempty]
          exact .empty
        · rw [linesBy_unfinished nonempty member]
          exact .unfinished nonempty member

end

def utf8 (text : List Char) : List UInt8 := text.flatMap String.utf8EncodeChar

theorem toList_loop (bytes : ByteArray) (position : Nat) (taken : List UInt8) :
    ByteArray.toList.loop bytes position taken =
      taken.reverse ++ bytes.data.toList.drop position := by
  induction remaining : bytes.size - position generalizing position taken with
  | zero =>
      have outside : ¬ position < bytes.size := by omega
      have drained : bytes.data.toList.drop position = [] := by
        rw [List.drop_eq_nil_iff, Array.length_toList]
        exact Nat.le_of_not_lt outside
      rw [ByteArray.toList.loop, if_neg outside, drained, List.append_nil]
  | succ remaining ih =>
      have inside : position < bytes.size := by omega
      have head : bytes.data.toList.drop position =
          bytes.get! position :: bytes.data.toList.drop (position + 1) := by
        have bound : position < bytes.data.toList.length := by rwa [Array.length_toList]
        rw [List.drop_eq_getElem_cons bound, Array.getElem_toList]
        exact congrArg (· :: _) (getElem!_pos bytes.data position inside).symm
      rw [ByteArray.toList.loop, if_pos inside, ih (position + 1) _ (by omega), head]
      simp

theorem toList_toUTF8 (text : String) : text.toUTF8.toList = utf8 text.toList := by
  have bytes : text.toUTF8 = text.toList.utf8Encode := by
    rw [← String.toByteArray_ofList, String.ofList_toList]
    rfl
  rw [bytes, ByteArray.toList, toList_loop]
  exact List.toList_data_toByteArray

theorem utf8_append (front back : List Char) : utf8 (front ++ back) = utf8 front ++ utf8 back :=
  List.flatMap_append

theorem utf8_cons (c : Char) (text : List Char) :
    utf8 (c :: text) = String.utf8EncodeChar c ++ utf8 text := rfl

theorem utf8EncodeChar_ne_nil (c : Char) : String.utf8EncodeChar c ≠ [] := by
  simp only [String.utf8EncodeChar]
  split_ifs <;> simp

/-- The byte of a character below 128 is part of no other character. -/
theorem mem_utf8EncodeChar_iff (mark : Char) (ascii : mark.toNat < 128) (c : Char) :
    UInt8.ofNat mark.toNat ∈ String.utf8EncodeChar c ↔ c = mark := by
  have number : c.val.toNat = c.toNat := rfl
  rw [← Char.toNat_inj]
  simp only [String.utf8EncodeChar, number]
  -- A character that needs several bytes has only bytes from 128 on.
  split_ifs
  all_goals
    simp only [List.mem_cons, List.not_mem_nil, or_false, ← UInt8.toNat_inj, UInt8.toNat_ofNat']
    omega

theorem feed_mem_utf8_iff (text : List Char) : 10 ∈ utf8 text ↔ '\n' ∈ text := by
  have feed : ∀ c, 10 ∈ String.utf8EncodeChar c ↔ c = '\n' :=
    mem_utf8EncodeChar_iff '\n' (by decide)
  simp [utf8, feed]

theorem utf8_ne_nil {text : List Char} (nonempty : text ≠ []) : utf8 text ≠ [] := by
  obtain ⟨c, rest, rfl⟩ := List.exists_cons_of_ne_nil nonempty
  exact List.append_ne_nil_of_left_ne_nil (utf8EncodeChar_ne_nil c) (utf8 rest)

theorem chomp_utf8 (line : List Char) : chomp 13 (utf8 line) = utf8 (chomp '\r' line) := by
  rcases List.eq_nil_or_concat' line with rfl | ⟨front, c, rfl⟩
  · rfl
  by_cases ended : c = '\r'
  · have bytes : utf8 (front ++ [c]) = utf8 front ++ [13] := by rw [utf8_append, ended]; rfl
    rw [bytes, chomp_concat, chomp_concat, if_pos rfl, if_pos ended]
  · rcases List.eq_nil_or_concat' (String.utf8EncodeChar c) with none | ⟨leading, byte, encoded⟩
    · exact absurd none (utf8EncodeChar_ne_nil c)
    have other : byte ≠ 13 := by
      rintro rfl
      exact ended ((mem_utf8EncodeChar_iff '\r' (by decide) c).mp (by simp [encoded]))
    have bytes : utf8 (front ++ [c]) = (utf8 front ++ leading) ++ [byte] := by
      rw [utf8_append, utf8_cons, encoded]
      simp [utf8]
    rw [chomp_concat, if_neg ended, bytes, chomp_concat, if_neg other]

theorem Broken.utf8 {text : List Char} {lines : List (List Char)}
    (broken : Broken '\n' '\r' text lines) :
    Broken 10 13 (Text.utf8 text) (lines.map Text.utf8) := by
  induction broken with
  | empty => exact .empty
  | unfinished nonempty free =>
      exact .unfinished (utf8_ne_nil nonempty) ((feed_mem_utf8_iff _).not.mpr free)
  | finished free _ ih =>
      rw [utf8_append, List.map_cons, ← chomp_utf8]
      exact .finished ((feed_mem_utf8_iff _).not.mpr free) ih

end Text

namespace StimulusLine

theorem decode_utf8 (line : List Char) : decode (Text.utf8 line) = .text line := by
  have bytes : (⟨(Text.utf8 line).toArray⟩ : ByteArray) = (String.ofList line).toByteArray := by
    rw [String.toByteArray_ofList]
    exact ByteArray.ext List.data_toByteArray.symm
  have valid : String.fromUTF8? (String.ofList line).toByteArray = some (String.ofList line) :=
    dif_pos (String.ofList line).isValidUTF8
  rw [decode, bytes, valid]
  exact congrArg StimulusLine.text String.toList_ofList

/-- A stream that is a text as a whole is a text in each of its lines. -/
theorem ofBytes_of_broken {text : String} {lines : List (List Char)}
    (broken : Text.Broken '\n' '\r' text.toList lines) :
    ofBytes text.toUTF8.toList = lines.map .text := by
  rw [ofBytes, Text.toList_toUTF8, broken.utf8.linesBy_eq, List.map_map]
  exact List.map_congr_left fun line _ => decode_utf8 line

end StimulusLine

end GateLevel
