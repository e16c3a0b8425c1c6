import GateLevel.Proofs.Source.Steps

/-! What can be collected from the words of a text alone, whether it can be read or not. The reader
goes along with the collecting. -/

namespace GateLevel.Source

inductive Place
  | outside
  | name
  | pins
  | pinList
  | body
  | target
  | equals
  | expression
  deriving DecidableEq, Repr

namespace Place

def afterPins (word : List Char) : Place :=
  if word = "input".toList ∨ word = "output".toList then pinList
  else if word = ");".toList then body
  else pins

def next (word : List Char) : Place → Place
  | outside => name
  | name => pins
  | pins => afterPins (Words.dropOpening word)
  | pinList => pinList
  | body =>
    if word = "endmodule".toList then outside else if word = "assign".toList then target else equals
  | target => equals
  | equals => expression
  | expression => expression

theorem afterPins_keyword (direction : Direction) :
    afterPins direction.keyword = pinList := by
  cases direction <;> decide

end Place

namespace Phase

def place : Phase → Place
  | outside => .outside
  | name => .name
  | pins => .pins
  | body => .body
  | target => .target
  | equals _ => .equals

theorem place_ne_pinList (phase : Phase) : phase.place ≠ .pinList := by
  cases phase <;> exact Place.noConfusion

theorem place_ne_expression (phase : Phase) : phase.place ≠ .expression := by
  cases phase <;> exact Place.noConfusion

end Phase

theorem Move.arrives {reader next : Reader} {word : List Char} (move : Move reader word next) :
    reader.phase.place.next word = next.phase.place := by
  cases move with
  | opens => rfl
  | names => rfl
  | skips bare => exact (congrArg Place.afterPins bare).trans (by decide : _ = Place.pins)
  | clocks clock => exact (congrArg Place.afterPins clock).trans (by decide : _ = Place.pins)
  | closes closed => exact (congrArg Place.afterPins closed).trans (by decide : _ = Place.body)
  | ends => rfl
  | assigns => rfl
  | drives named _ =>
      refine (if_neg ?_).trans (if_neg ?_) <;>
        · rintro rfl
          cases named
  | targets _ => rfl

/-- What is wanted of the words: of one that an assignment begins with, and of one in an expression.
After `assign` a word is an output, whatever it looks like. -/
structure Collector where
  ofTarget : List Char → List (List Char)
  ofExpression : List Char → List (List Char)

namespace Collector

def take (collector : Collector) (word : List Char) : Place → List (List Char)
  | .body => collector.ofTarget word
  | .expression => collector.ofExpression word
  | _ => []

end Collector

structure Scan where
  place : Place
  finished : List (List (List Char))
  current : List (List Char)
  deriving DecidableEq, Repr

namespace Scan

def start : Scan := ⟨.outside, [], []⟩

def readWord (collector : Collector) (scan : Scan) (word : List Char) : Scan :=
  ⟨scan.place.next word, scan.finished, scan.current ++ collector.take word scan.place⟩

def endLine (scan : Scan) : Scan :=
  match scan.place with
  | .pinList => { scan with place := .pins }
  | .expression => ⟨.body, scan.finished ++ [scan.current], []⟩
  | _ => scan

def readLine (collector : Collector) (scan : Scan) (line : List Char) : Scan :=
  if isComment line then scan else ((Text.words line).foldl (readWord collector) scan).endLine

theorem foldl_pinList (collector : Collector) (words : List (List Char))
    (finished : List (List (List Char))) (current : List (List Char)) :
    words.foldl (readWord collector) ⟨.pinList, finished, current⟩ =
      ⟨.pinList, finished, current⟩ := by
  induction words with
  | nil => rfl
  | cons word rest ih => simpa [readWord, Place.next, Collector.take] using ih

theorem foldl_expression (collector : Collector) (words : List (List Char))
    (finished : List (List (List Char))) (current : List (List Char)) :
    words.foldl (readWord collector) ⟨.expression, finished, current⟩ =
      ⟨.expression, finished, current ++ words.flatMap collector.ofExpression⟩ := by
  induction words generalizing current with
  | nil => simp
  | cons word rest ih =>
      rw [List.foldl_cons, readWord]
      simp [Place.next, Collector.take, ih]

theorem endLine_of_phase {scan : Scan} {phase : Phase} (place : scan.place = phase.place) :
    scan.endLine = scan := by
  rw [endLine, place]
  cases phase <;> rfl

end Scan

namespace Collector

def collect (collector : Collector) (text : String) : List (List (List Char)) :=
  ((Text.lines text.toList).foldl (Scan.readLine collector) .start).finished

/-- A relation between what has been collected and what has been read that no step breaks. -/
structure Kept (collector : Collector)
    (holds : List (List (List Char)) → List (List Char) → Reader → Prop) : Prop where
  move : ∀ {finished current reader word next}, holds finished current reader →
    Move reader word next →
      holds finished (current ++ collector.take word reader.phase.place) next
  pin : ∀ {finished current before after}, holds finished current ⟨.pins, before⟩ →
    DeclaresPin before after → holds finished current ⟨.pins, after⟩
  assign : ∀ {finished current target words before after},
    holds finished current ⟨.equals target, before⟩ → Assigns target words before after →
      holds (finished ++ [current ++ words.flatMap collector.ofExpression]) [] ⟨.body, after⟩

structure Along (holds : List (List (List Char)) → List (List Char) → Reader → Prop)
    (scan : Scan) (reader : Reader) : Prop where
  place : scan.place = reader.phase.place
  kept : holds scan.finished scan.current reader

namespace Kept

variable {collector : Collector}
  {holds : List (List (List Char)) → List (List Char) → Reader → Prop}
  (kept : collector.Kept holds)
include kept

theorem passage {scan : Scan} {reader after : Reader} {words : List (List Char)}
    (along : Along holds scan reader) (passage : Passage reader words after) :
    Along holds (words.foldl (Scan.readWord collector) scan).endLine after := by
  induction passage generalizing scan with
  | done => rwa [List.foldl_nil, Scan.endLine_of_phase along.place]
  | move first _ ih =>
      rw [List.foldl_cons, Scan.readWord, along.place, first.arrives]
      exact ih ⟨rfl, kept.move along.kept first⟩
  | @list before after direction word pins keyword declared =>
      have place : scan.place = .pins := along.place
      -- All words to the end of the line are pins, from which nothing is taken.
      rw [List.foldl_cons, Scan.readWord, place, Place.next, keyword, Place.afterPins_keyword]
      simp only [Collector.take, List.append_nil, Scan.foldl_pinList]
      exact ⟨rfl, declarePins_induction kept.pin declared along.kept⟩
  | assign assigns =>
      have place : scan.place = .equals := along.place
      -- The expression runs to the end of the line, and finishes the assignment there.
      rw [List.foldl_cons, Scan.readWord, place, Place.next]
      simp only [Collector.take, List.append_nil, Scan.foldl_expression]
      exact ⟨rfl, kept.assign along.kept assigns⟩

theorem readLines {scan : Scan} {reader after : Reader} {lines : List (List Char)} {number : Nat}
    (along : Along holds scan reader)
    (read : Reader.readLines number lines reader = .ok after) :
    Along holds (lines.foldl (Scan.readLine collector) scan) after := by
  induction lines generalizing number scan reader with
  | nil =>
      cases read
      exact along
  | cons line rest ih =>
      simp only [Reader.readLines] at read
      split at read
      · cases read
      · rename_i middle first
        refine ih ?_ read
        rw [Scan.readLine]
        rcases Reader.readLine_eq_ok first with ⟨comment, rfl⟩ | ⟨visible, words⟩
        · rwa [if_pos comment]
        · rw [if_neg (Bool.eq_false_iff.mp visible)]
          exact kept.passage along words

theorem readDeclaration {text : String} {declaration : Declaration}
    (read : Source.readDeclaration text = .ok declaration) (start : holds [] [] .start) :
    ∃ current, holds (collector.collect text) current ⟨.outside, declaration⟩ :=
  ⟨_, (kept.readLines ⟨rfl, start⟩ (readLines_of_readDeclaration read)).kept⟩

end Kept

end Collector

end GateLevel.Source
