import GateLevel.Proofs.Source.Numbering
import Mathlib.Data.List.TakeWhile

/-! Comments, blank lines, and line ends between words make no difference to what is read. They only
move the lines behind them, and the faults that are found there. -/

namespace GateLevel

namespace Text

theorem words_append_cons {c : Char} (separates : isSeparator c = true) (front back : List Char) :
    words (front ++ c :: back) = words front ++ words back := by
  simp only [words, List.splitOnP_append_cons front back separates, List.filter_append]

section

variable {gap : List Char} (separate : ∀ c ∈ gap, isSeparator c = true)
include separate

theorem words_append_left (back : List Char) : words (gap ++ back) = words back := by
  induction gap with
  | nil => rfl
  | cons c gap ih =>
      obtain ⟨here, later⟩ := List.forall_mem_cons.mp separate
      exact (words_append_cons here [] (gap ++ back)).trans (ih later)

theorem words_of_separators : words gap = [] := by
  have alone := words_append_left separate []
  rwa [List.append_nil] at alone

theorem words_append_right (front : List Char) : words (front ++ gap) = words front := by
  cases gap with
  | nil => rw [List.append_nil]
  | cons c gap =>
      obtain ⟨here, later⟩ := List.forall_mem_cons.mp separate
      rw [words_append_cons here, words_of_separators later, List.append_nil]

theorem words_append_gap (nonempty : gap ≠ []) (front back : List Char) :
    words (front ++ gap ++ back) = words front ++ words back := by
  obtain ⟨c, gap, rfl⟩ := List.exists_cons_of_ne_nil nonempty
  obtain ⟨here, later⟩ := List.forall_mem_cons.mp separate
  rw [List.append_assoc, List.cons_append, words_append_cons here, words_append_left later]

end

theorem isBlank_of_isSeparator {c : Char} (separates : isSeparator c = true) :
    isBlank c = true := by
  simp only [isSeparator, Bool.or_eq_true, decide_eq_true_eq] at separates
  rcases separates with rfl | rfl <;> rfl

end Text

namespace Source

theorem isComment_append {front : List Char} (comment : isComment front = true)
    (back : List Char) : isComment (front ++ back) = true := by
  simp only [isComment, List.isPrefixOf_iff_prefix] at comment ⊢
  have visible : front.dropWhile Text.isBlank ≠ [] := by
    intro blank
    simp [blank] at comment
  rw [List.dropWhile_append, if_neg (by simpa using visible)]
  exact comment.trans (List.prefix_append _ _)

/-- The slashes of a comment are not found among separators. -/
theorem isComment_of_append {front trail : List Char}
    (separate : ∀ c ∈ trail, Text.isSeparator c = true)
    (comment : isComment (front ++ trail) = true) : isComment front = true := by
  have unslashed : '/' ∉ trail := fun slash => absurd (separate '/' slash) (by decide)
  simp only [isComment, List.isPrefixOf_iff_prefix, List.dropWhile_append] at comment ⊢
  split at comment
  · have none : trail.dropWhile Text.isBlank = [] :=
      List.dropWhile_eq_nil_iff.mpr fun c member => Text.isBlank_of_isSeparator (separate c member)
    simp [none] at comment
  · rename_i visible
    generalize front.dropWhile Text.isBlank = back at comment visible ⊢
    rcases back with _ | ⟨c, _ | ⟨d, rest⟩⟩
    · simp at visible
    · obtain ⟨_, slashed⟩ := List.cons_prefix_cons.mp comment
      exact absurd (slashed.subset (by simp)) unslashed
    · simpa using comment

def Idle (line : List Char) : Prop :=
  isComment line = true ∨ ∀ c ∈ line, Text.isSeparator c = true

instance (line : List Char) : Decidable (Idle line) :=
  decidable_of_iff (isComment line = true ∨ line.all Text.isSeparator = true)
    (or_congr Iff.rfl List.all_eq_true)

/-- The line falls into two, at a gap between words. Either part may get or lose separators at the
break. -/
inductive Breaks : List Char → List Char → List Char → Prop
  | between {front gap back trail indent : List Char} (nonempty : gap ≠ [])
      (separate : ∀ c ∈ gap ++ trail ++ indent, Text.isSeparator c = true) :
      Breaks (front ++ gap ++ back) (front ++ trail) (indent ++ back)

theorem Breaks.words {line first second : List Char} (breaks : Breaks line first second) :
    Text.words line = Text.words first ++ Text.words second := by
  obtain @⟨front, gap, back, trail, indent, nonempty, separate⟩ := breaks
  simp only [List.forall_mem_append] at separate
  obtain ⟨⟨gapped, trailed⟩, indented⟩ := separate
  rw [Text.words_append_gap gapped nonempty, Text.words_append_right trailed,
    Text.words_append_left indented]

theorem Breaks.isComment_first {line first second : List Char} (breaks : Breaks line first second)
    (uncommented : isComment line = false) : isComment first = false := by
  obtain @⟨front, gap, back, trail, indent, nonempty, separate⟩ := breaks
  simp only [List.forall_mem_append] at separate
  obtain ⟨⟨_, trailed⟩, _⟩ := separate
  rw [Bool.eq_false_iff] at uncommented ⊢
  intro comment
  refine uncommented ?_
  rw [List.append_assoc]
  exact isComment_append (isComment_of_append trailed comment) (gap ++ back)

/-- After these words the reader is inside a list of pins or an expression. It is not if it cannot
get through the words. -/
def isInside : List (List Char) → Phase → Declaration → Bool
  | [], _, _ => false
  | word :: rest, phase, declaration =>
    match readWords [word] phase declaration with
    | .error _ => false
    | .ok reader =>
      phase.place.next word = .pinList || phase.place.next word = .expression ||
        isInside rest reader.phase reader.declaration

/-- Outside of lists and expressions the reader can be stopped between two words and go on from
there. -/
theorem readWords_append {front : List (List Char)} {phase : Phase} {before : Declaration}
    (outside : isInside front phase before = false) (back : List (List Char)) :
    readWords (front ++ back) phase before =
      readWords front phase before >>= fun reader =>
        readWords back reader.phase reader.declaration := by
  induction front generalizing phase before with
  | nil => rfl
  | cons word rest ih =>
      rw [List.cons_append]
      rw [isInside] at outside
      cases wordStep phase before word with
      | moves reader _ read =>
          have stopped : readWords [word] phase before = .ok reader := read []
          rw [stopped] at outside
          rw [read, read]
          exact ih (Bool.or_eq_false_iff.mp outside).2
      | lists direction pins keyword read =>
          have stopped : readWords [word] phase before = .ok ⟨.pins, before⟩ := read []
          have listed : phase.place.next word = .pinList := by
            rw [pins, Phase.place, Place.next, keyword, Place.afterPins_keyword]
          simp [stopped, listed] at outside
      | assigns target equals _ read =>
          subst equals
          have stopped : readWords [word] (.equals target) before = .ok ⟨.body, _⟩ := read []
          simp [stopped, Phase.place, Place.next] at outside
      | fails fault read =>
          rw [read, read]
          rfl

def ReadError.renumber (place : Nat → Nat) : ReadError → ReadError
  | fault line cause => fault (place line) cause
  | unexpectedEnd => unexpectedEnd
  | refused cause => refused cause

theorem mapError_renumber {α : Type} (outcome : Except ReadError α) (first last : Nat → Nat) :
    (outcome.mapError (ReadError.renumber first)).mapError (ReadError.renumber last) =
      outcome.mapError (ReadError.renumber (last ∘ first)) := by
  rcases outcome with (_ | _ | _) | _ <;> rfl

/-- The groups stand before the elements, one group before each, and the last ones behind them. -/
def interleave {α : Type} : List (List α) → List α → List α
  | groups, [] => groups.flatten
  | [], elements => elements
  | group :: groups, x :: rest => group ++ x :: interleave groups rest

namespace Reader

theorem readLine_of_idle {line : List Char} (idle : Idle line) (reader : Reader) :
    reader.readLine line = .ok reader := by
  rcases idle with comment | blank
  · exact if_pos comment
  · rw [readLine, Text.words_of_separators blank]
    split <;> rfl

theorem readLines_of_idle {lines : List (List Char)} (idle : ∀ line ∈ lines, Idle line)
    (number : Nat) (reader : Reader) : readLines number lines reader = .ok reader := by
  induction lines generalizing number with
  | nil => rfl
  | cons line rest ih =>
      obtain ⟨first, later⟩ := List.forall_mem_cons.mp idle
      rw [readLines, readLine_of_idle first]
      exact ih later (number + 1)

/-- Wherever the count of the lines starts, it goes on from there. -/
theorem readLines_add (number shift : Nat) (lines : List (List Char)) (reader : Reader) :
    readLines (number + shift) lines reader =
      (readLines number lines reader).mapError (ReadError.renumber (· + shift)) := by
  induction lines generalizing number reader with
  | nil => rfl
  | cons line rest ih =>
      simp only [readLines]
      cases reader.readLine line with
      | error cause => rfl
      | ok middle =>
          rw [Nat.add_right_comm]
          exact ih (number + 1) middle

theorem readLines_interleave {groups : List (List (List Char))}
    (idle : ∀ line ∈ groups.flatten, Idle line) (lines : List (List Char)) (reader : Reader) :
    readLines 0 (interleave groups lines) reader =
      (readLines 0 lines reader).mapError
        (ReadError.renumber fun number => number + (groups.take (number + 1)).flatten.length) := by
  induction lines generalizing groups reader with
  | nil =>
      rw [interleave]
      exact readLines_of_idle idle 0 reader
  | cons line rest ih =>
      cases groups with
      | nil =>
          have whole := readLines_add 0 0 (line :: rest) reader
          simpa [interleave] using whole
      | cons group groups =>
          rw [List.flatten_cons, List.forall_mem_append] at idle
          rw [interleave, readLines_append, readLines_of_idle idle.1]
          simp only [bind, Except.bind, readLines]
          cases reader.readLine line with
          | error cause => simp [Except.mapError, ReadError.renumber]
          | ok middle =>
              -- Both runs count on: the one from behind the group, the other from the second line.
              have moved := readLines_add 0 (group.length + 1) (interleave groups rest) middle
              have second := readLines_add 0 1 rest middle
              dsimp only
              rw [Nat.add_assoc, moved, second, ih idle.2, mapError_renumber, mapError_renumber]
              congr 2
              funext number
              simp only [Function.comp, List.take_succ_cons, List.flatten_cons,
                List.length_append]
              omega

theorem finish_mapError (outcome : Except ReadError Reader) (place : Nat → Nat) :
    outcome.mapError (ReadError.renumber place) >>= finish =
      (outcome >>= finish).mapError (ReadError.renumber place) := by
  rcases outcome with (_ | _ | _) | ⟨phase, declaration⟩
  · rfl
  · rfl
  · rfl
  · cases phase <;> rfl

end Reader

section

variable {line first second : List Char} (breaks : Breaks line first second)
  (uncommented : isComment line = false) (visible : isComment second = false) {reader : Reader}
  (outside : isInside (Text.words first) reader.phase reader.declaration = false)
include breaks uncommented visible outside

theorem readLine_of_breaks :
    reader.readLine line = reader.readLine first >>= fun middle => middle.readLine second := by
  have front : isComment first = false := breaks.isComment_first uncommented
  simp only [Reader.readLine, uncommented, front, visible, breaks.words]
  exact readWords_append outside (Text.words second)

theorem readLines_of_breaks_error {cause : Fault} (begun : reader.readLine first = .error cause)
    (number : Nat) (rest : List (List Char)) :
    Reader.readLines number (first :: second :: rest) reader =
      Reader.readLines number (line :: rest) reader := by
  have split := readLine_of_breaks breaks uncommented visible outside
  rw [begun] at split
  simp only [Reader.readLines, begun, split, bind, Except.bind]

theorem readLines_of_breaks_ok {middle : Reader} (begun : reader.readLine first = .ok middle)
    (number : Nat) (rest : List (List Char)) :
    Reader.readLines number (first :: second :: rest) reader =
      (Reader.readLines number (line :: rest) reader).mapError (ReadError.renumber (· + 1)) := by
  have split := readLine_of_breaks breaks uncommented visible outside
  rw [begun] at split
  have same : Reader.readLines number (line :: rest) reader =
      Reader.readLines number (second :: rest) middle := by
    simp only [Reader.readLines, split, bind, Except.bind]
  rw [Reader.readLines, begun, same]
  exact Reader.readLines_add number 1 (second :: rest) middle

end

theorem readDeclaration_append {text : String} {before rest : List (List Char)}
    (lines : Text.lines text.toList = before ++ rest) :
    readDeclaration text = Reader.readLines 1 before .start >>= fun reader =>
      Reader.readLines (1 + before.length) rest reader >>= Reader.finish := by
  rw [readDeclaration, lines, readLines_append]
  cases Reader.readLines 1 before .start <;> rfl

/-- Idle lines may be put in anywhere, and a line may be broken wherever no list or expression is
under way, if what comes off is not a comment. The same is read as before, and a fault is found in
the line that it has moved to. -/
theorem readDeclaration_spacing (text : String) :
    (∀ (padded : String) (groups : List (List (List Char))),
      (∀ line ∈ groups.flatten, Idle line) →
      Text.lines padded.toList = interleave groups (Text.lines text.toList) →
        readDeclaration padded = (readDeclaration text).mapError
          (ReadError.renumber fun number => number + (groups.take number).flatten.length)) ∧
      ∀ (broken : String) (before rest : List (List Char)) (line first second : List Char),
        Text.lines text.toList = before ++ line :: rest →
        Text.lines broken.toList = before ++ first :: second :: rest →
        Breaks line first second → isComment line = false → isComment second = false →
        (∀ reader, Reader.readLines 1 before .start = .ok reader →
          isInside (Text.words first) reader.phase reader.declaration = false) →
          ((∃ reader, Reader.readLines 1 (before ++ [first]) .start = .ok reader) →
            readDeclaration broken = (readDeclaration text).mapError
              (ReadError.renumber (· + 1))) ∧
          ((∀ reader, Reader.readLines 1 (before ++ [first]) .start ≠ .ok reader) →
            readDeclaration broken = readDeclaration text) := by
  constructor
  · intro padded groups idle lines
    have relative := Reader.readLines_interleave idle (Text.lines text.toList) .start
    have moved := Reader.readLines_add 0 1 (interleave groups (Text.lines text.toList)) .start
    have counted := Reader.readLines_add 0 1 (Text.lines text.toList) .start
    rw [Nat.zero_add] at moved counted
    rw [readDeclaration, readDeclaration, lines, ← Reader.finish_mapError, moved, counted, relative,
      mapError_renumber, mapError_renumber]
    congr 3
    funext number
    simp only [Function.comp]
    omega
  · intro broken before rest line first second lines parted breaks uncommented visible outside
    rw [readDeclaration_append lines, readDeclaration_append parted, readLines_append]
    cases read : Reader.readLines 1 before .start with
    | error cause => exact ⟨by rintro ⟨_, ⟨⟩⟩, fun _ => rfl⟩
    | ok reader =>
        have outside := outside reader read
        cases begun : reader.readLine first with
        | error cause =>
            have same := readLines_of_breaks_error breaks uncommented visible outside begun
              (1 + before.length) rest
            refine ⟨?_, fun _ => congrArg (· >>= Reader.finish) same⟩
            rintro ⟨middle, passed⟩
            simp [bind, Except.bind, Reader.readLines, begun] at passed
        | ok middle =>
            have moved := readLines_of_breaks_ok breaks uncommented visible outside begun
              (1 + before.length) rest
            refine ⟨fun _ => ?_, fun failed => absurd ?_ (failed middle)⟩
            · exact (congrArg (· >>= Reader.finish) moved).trans (Reader.finish_mapError _ _)
            · simp [bind, Except.bind, Reader.readLines, begun]

def cramped : String := "module M (\ninput a\noutput y\n); assign y = NOT b\nendmodule"

/-- Lines are put in before the first line, before the second and behind the last; then the fourth
line is broken in front of its equals sign. The fault goes along. -/
theorem readDeclaration_spacing_cramped :
    readDeclaration cramped = .error (.fault 4 (.unknownVariable "b")) ∧
      readDeclaration ("// top\n\nmodule M (\n \t\ninput a\noutput y\n); assign y = NOT b\n" ++
        "endmodule\n//") = .error (.fault 7 (.unknownVariable "b")) ∧
      readDeclaration "module M (\ninput a\noutput y\n); assign y \n\t= NOT b\nendmodule" =
        .error (.fault 5 (.unknownVariable "b")) := by
  have read : readDeclaration cramped = .error (.fault 4 (.unknownVariable "b")) := by
    decide +kernel
  obtain ⟨padded, broken⟩ := readDeclaration_spacing cramped
  refine ⟨read, ?_, ?_⟩
  · rw [padded _ ([["// top", ""], [" \t"], [], [], [], ["//"]].map (List.map String.toList))
      (by decide +kernel) (by decide +kernel), read]
    rfl
  · have front : Reader.readLines 1
        (["module M (", "input a", "output y"].map String.toList) .start =
          .ok ⟨.pins, opened⟩ := by
      decide +kernel
    have breaks : Breaks "); assign y = NOT b".toList "); assign y ".toList "\t= NOT b".toList :=
      @Breaks.between "); assign y".toList [' '] "= NOT b".toList [' '] ['\t'] (by simp)
        (List.all_eq_true.mp rfl)
    have moved := (broken
      "module M (\ninput a\noutput y\n); assign y \n\t= NOT b\nendmodule"
      (["module M (", "input a", "output y"].map String.toList) ["endmodule".toList]
      "); assign y = NOT b".toList "); assign y ".toList "\t= NOT b".toList
      (by decide +kernel) (by decide +kernel) breaks (by decide +kernel) (by decide +kernel)
      (fun reader same => by
        obtain rfl := Except.ok.inj (front.symm.trans same)
        decide +kernel)).1
    rw [moved ⟨⟨.equals (.output 0), opened⟩, by decide +kernel⟩, read]
    rfl

end Source

end GateLevel
