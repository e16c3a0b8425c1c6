import GateLevel.Proofs.Source.Mentions

/-! The expressions of a text, and what their operands come to stand for. A port keeps its name for
itself, unless the name looks like that of a flip-flop. -/

namespace GateLevel.Source

namespace Collector

def expressions : Collector where
  ofTarget _ := []
  ofExpression word := [word]

end Collector

/-- The words of the expressions of a text, in the order of the text. -/
def expressionsOf (text : String) : List (List (List Char)) :=
  Collector.expressions.collect text

def atomsOf (words : List (List Char)) : List Atom := (words.flatMap peel).map Atom.ofWord

def operandsOf (words : List (List Char)) : List (List Char) :=
  (atomsOf words).filterMap Atom.name?

/-- What a name stands for: with digits behind `FF` a flip-flop, and otherwise a port. -/
inductive Denotes (header : Header) (name : List Char) : Signal → Prop
  | flipflop {digits : List Char} {slot : Nat} (numbered : flipflopDigits? name = some digits)
      (points : Points header.flipflops slot digits) : Denotes header name (.flipflop slot)
  | input {index : Nat} (unnumbered : flipflopDigits? name = none)
      (named : header.inputs[index]? = some (String.ofList name)) :
      Denotes header name (.input index)
  | output {index : Nat} (unnumbered : flipflopDigits? name = none)
      (named : header.outputs[index]? = some (String.ofList name)) :
      Denotes header name (.output index)

inductive Becomes (header : Header) : Item → Token → Prop
  | gate (kind : Gate) : Becomes header (.gate kind) (.gate kind)
  | operand {name : List Char} {signal : Signal} (denotes : Denotes header name signal) :
      Becomes header (.operand name) (.signal signal)

theorem getElem?_of_grows {α : Type} {front list : List α} (grows : front <+: list) {index : Nat}
    {x : α} (found : front[index]? = some x) : list[index]? = some x := by
  obtain ⟨back, rfl⟩ := grows
  rw [List.getElem?_append_left (List.getElem?_eq_some_iff.mp found).1, found]

theorem Denotes.extend {header later : Header} {name : List Char} {signal : Signal}
    (denotes : Denotes header name signal) (grows : header.Extends later) :
    Denotes later name signal := by
  cases denotes with
  | flipflop numbered points => exact .flipflop numbered (points.grow grows.flipflops)
  | input unnumbered named => exact .input unnumbered (getElem?_of_grows grows.inputs named)
  | output unnumbered named => exact .output unnumbered (getElem?_of_grows grows.outputs named)

theorem Becomes.extend {header later : Header} {item : Item} {token : Token}
    (becomes : Becomes header item token) (grows : header.Extends later) :
    Becomes later item token := by
  cases becomes with
  | gate kind => exact .gate kind
  | operand denotes => exact .operand (denotes.extend grows)

theorem getElem?_of_idxOf? {α : Type} [BEq α] [LawfulBEq α] {x : α} {list : List α} {index : Nat}
    (found : list.idxOf? x = some index) : list[index]? = some x := by
  obtain ⟨bound, same, _⟩ := List.idxOf?_eq_some_iff.mp found
  rw [List.getElem?_eq_getElem bound, same]

theorem Resolves.denotes {before after : Declaration} {word : List Char} {signal : Signal}
    (resolves : Resolves word before signal after) : Denotes after.toHeader word signal := by
  cases resolves with
  | flipflop named mention =>
      obtain ⟨digits, numbered, value⟩ := flipflopNumber?_eq_some named
      obtain ⟨points, _⟩ := List.forall₂_cons.mp (mention.mentioned value).points
      exact .flipflop numbered points
  | input unnumbered found =>
      exact .input (flipflopNumber?_eq_none unnumbered) (getElem?_of_idxOf? found)
  | output unnumbered found =>
      exact .output (flipflopNumber?_eq_none unnumbered) (getElem?_of_idxOf? found)

theorem ResolvesAll.becomes {before after : Declaration} {items : List Item}
    {tokens : List Token} (resolves : ResolvesAll items before tokens after) :
    List.Forall₂ (Becomes after.toHeader) items tokens := by
  induction resolves with
  | nil => exact .nil
  | @gate kind _ _ _ _ _ ih => exact .cons (.gate kind) ih
  | operand first rest ih =>
      exact .cons (.operand (first.denotes.extend rest.enrols.grows)) ih

def Compiles (header : Header) (words : List (List Char)) (assignment : Assignment) : Prop :=
  ∃ items, itemsOfWords words = some items ∧
    List.Forall₂ (Becomes header) items assignment.expression

theorem Compiles.extend {header later : Header} {words : List (List Char)}
    {assignment : Assignment} (compiles : Compiles header words assignment)
    (grows : header.Extends later) : Compiles later words assignment := by
  obtain ⟨items, read, becomes⟩ := compiles
  exact ⟨items, read, becomes.imp fun _ _ one => one.extend grows⟩

structure Follows (finished : List (List (List Char))) (current : List (List Char))
    (reader : Reader) : Prop where
  current : current = []
  finished : List.Forall₂ (Compiles reader.declaration.toHeader) finished
    reader.declaration.assignments

namespace Follows

variable {finished : List (List (List Char))} {current : List (List Char)}

theorem extend {reader next : Reader} (follows : Follows finished current reader)
    (grows : reader.declaration.Extends next.declaration.toHeader)
    (assignments : next.declaration.assignments = reader.declaration.assignments) :
    Follows finished current next := by
  refine ⟨follows.current, ?_⟩
  rw [assignments]
  exact follows.finished.imp fun _ _ compiles => compiles.extend grows

theorem move {reader next : Reader} {word : List Char} (follows : Follows finished current reader)
    (move : Move reader word next) :
    Follows finished (current ++ Collector.expressions.take word reader.phase.place) next := by
  have nothing : Collector.expressions.take word reader.phase.place = [] := by
    cases reader.phase <;> rfl
  rw [nothing, List.append_nil]
  exact follows.extend move.grows move.assignments

theorem pin {before after : Declaration} (follows : Follows finished current ⟨.pins, before⟩)
    (declares : DeclaresPin before after) : Follows finished current ⟨.pins, after⟩ :=
  follows.extend declares.grows declares.assignments

theorem assign {target : Target} {before after : Declaration} {words : List (List Char)}
    (follows : Follows finished current ⟨.equals target, before⟩)
    (assigns : Assigns target words before after) :
    Follows (finished ++ [current ++ words.flatMap Collector.expressions.ofExpression]) []
      ⟨.body, after⟩ := by
  obtain ⟨rfl, earlier⟩ := follows
  have whole : words.flatMap Collector.expressions.ofExpression = words :=
    List.flatMap_singleton' words
  rw [whole, List.nil_append]
  cases assigns with
  | appends read resolves =>
      have older := earlier.imp fun _ _ compiles => compiles.extend resolves.enrols.grows
      exact ⟨rfl, List.rel_append older (.cons ⟨_, read, resolves.becomes⟩ .nil)⟩

theorem kept : Collector.expressions.Kept Follows := ⟨move, pin, assign⟩

end Follows

/-- The expressions of a text that is read are those of its assignments, in their order. -/
theorem readDeclaration_compiles {text : String} {declaration : Declaration}
    (read : readDeclaration text = .ok declaration) :
    List.Forall₂ (Compiles declaration.toHeader) (expressionsOf text)
      declaration.assignments := by
  obtain ⟨_, follows⟩ := Follows.kept.readDeclaration read ⟨rfl, .nil⟩
  exact follows.finished

theorem Compiles.operands {header : Header} {words : List (List Char)} {assignment : Assignment}
    (compiles : Compiles header words assignment) :
    List.Forall₂ (Denotes header) (operandsOf words) assignment.operands := by
  obtain ⟨items, read, becomes⟩ := compiles
  rw [operandsOf, atomsOf, ← (arrange_conserves read).2]
  refine List.rel_filterMap ?_ becomes
  intro item token one
  cases one with
  | gate kind => exact .none
  | operand denotes => exact .some denotes

/-- No port but the signal has the name, unless the name has digits behind `FF`. In that case the
signal is the flip-flop with this number. -/
structure Owns (header : Header) (name : List Char) (signal : Signal) : Prop where
  input : flipflopDigits? name = none →
    ∀ index, header.inputs[index]? = some (String.ofList name) → signal = .input index
  output : flipflopDigits? name = none →
    ∀ index, header.outputs[index]? = some (String.ofList name) → signal = .output index
  flipflop : ∀ digits, flipflopDigits? name = some digits →
    ∃ slot, signal = .flipflop slot ∧ Points header.flipflops slot digits

theorem Denotes.owns {header : Header} {name : List Char} {signal : Signal}
    (denotes : Denotes header name signal)
    (distinct : (header.inputs ++ header.outputs).Nodup) : Owns header name signal := by
  obtain ⟨inputs, outputs, apart⟩ := List.nodup_append.mp distinct
  have never : ∀ {front back : Nat}, header.inputs[front]? = some (String.ofList name) →
      header.outputs[back]? ≠ some (String.ofList name) := fun here there =>
    apart _ (List.mem_of_getElem? here) _ (List.mem_of_getElem? there) rfl
  cases denotes with
  | @flipflop digits slot numbered points =>
      refine ⟨fun unnumbered => ?_, fun unnumbered => ?_, fun others same => ?_⟩
      · simp [numbered] at unnumbered
      · simp [numbered] at unnumbered
      · obtain rfl := Option.some.inj (numbered.symm.trans same)
        exact ⟨slot, rfl, points⟩
  | @input index unnumbered named =>
      refine ⟨fun _ other same => ?_, fun _ other same => absurd same (never named),
        fun digits numbered => ?_⟩
      · have bound := (List.getElem?_eq_some_iff.mp named).1
        rw [(List.getElem?_inj bound inputs).mp (named.trans same.symm)]
      · simp [unnumbered] at numbered
  | @output index unnumbered named =>
      refine ⟨fun _ other same => absurd named (never same), fun _ other same => ?_,
        fun digits numbered => ?_⟩
      · have bound := (List.getElem?_eq_some_iff.mp named).1
        rw [(List.getElem?_inj bound outputs).mp (named.trans same.symm)]
      · simp [unnumbered] at numbered

/-- In a text that is read, every operand that is called like a port is that port, unless the name
has digits behind `FF`, which make it a flip-flop. -/
theorem readDeclaration_operands {text : String} {declaration : Declaration}
    (read : readDeclaration text = .ok declaration) :
    List.Forall₂
      (fun words assignment =>
        List.Forall₂ (Owns declaration.toHeader) (operandsOf words) assignment.operands)
      (expressionsOf text) declaration.assignments := by
  have distinct := (scoped_of_readDeclaration read).tidy.ports_distinct
  refine (readDeclaration_compiles read).imp fun words assignment compiles => ?_
  exact compiles.operands.imp fun _ _ denotes => denotes.owns distinct

def crowded : String :=
  "module M (\nclk\ninput FF, NOT\noutput endmodule, FF3\n);\n" ++
    "assign endmodule = ((FF) AND FF03)\nassign FF3 = NOT endmodule OR FF3\nendmodule\n"

def crowdedDeclaration : Declaration where
  name := "M"
  clocked := true
  inputs := ["FF", "NOT"]
  flipflops := [3]
  outputs := ["endmodule", "FF3"]
  assignments := [
    ⟨.output 0, [.signal (.input 0), .signal (.flipflop 0), .gate (.binary .and)]⟩,
    ⟨.output 1, [.signal (.output 0), .gate .not, .signal (.flipflop 0), .gate (.binary .or)]⟩]

theorem readDeclaration_operands_crowded :
    readDeclaration crowded = .ok crowdedDeclaration ∧
      (expressionsOf crowded).map operandsOf =
        [["FF", "FF03"], ["endmodule", "FF3"]].map (List.map String.toList) ∧
      Owns crowdedDeclaration.toHeader "FF".toList (.input 0) ∧
      Owns crowdedDeclaration.toHeader "endmodule".toList (.output 0) ∧
      Owns crowdedDeclaration.toHeader "FF3".toList (.flipflop 0) := by
  have read : readDeclaration crowded = .ok crowdedDeclaration := by decide +kernel
  have owns := readDeclaration_operands read
  have written : expressionsOf crowded =
      [["((FF)", "AND", "FF03)"], ["NOT", "endmodule", "OR", "FF3"]].map
        (List.map String.toList) := by
    decide +kernel
  have front : operandsOf (["((FF)", "AND", "FF03)"].map String.toList) =
      ["FF", "FF03"].map String.toList := by
    decide +kernel
  have back : operandsOf (["NOT", "endmodule", "OR", "FF3"].map String.toList) =
      ["endmodule", "FF3"].map String.toList := by
    decide +kernel
  rw [written, List.map_cons, List.map_singleton] at owns
  obtain ⟨first, others⟩ := List.forall₂_cons.mp owns
  obtain ⟨second, _⟩ := List.forall₂_cons.mp others
  rw [front] at first
  rw [back] at second
  obtain ⟨port, _⟩ := List.forall₂_cons.mp first
  obtain ⟨output, remaining⟩ := List.forall₂_cons.mp second
  obtain ⟨flipflop, _⟩ := List.forall₂_cons.mp remaining
  exact ⟨read, by decide +kernel, port, output, flipflop⟩

def shadowed : String :=
  "module M (\nclk\ninput FF0\noutput y\n);\nassign y = FF0\nendmodule\n"

theorem operand_taken_by_flipflop :
    readDeclaration shadowed =
        .ok ⟨⟨"M", true, ["FF0"], [0], ["y"]⟩, [⟨.output 0, [.signal (.flipflop 0)]⟩]⟩ ∧
      (expressionsOf shadowed).map operandsOf = [["FF0".toList]] ∧
      Gate.ofMnemonic? "FF0" = none := by
  decide +kernel

end GateLevel.Source
