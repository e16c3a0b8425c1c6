import GateLevel.Source.Reader

/-! What the reader does with a declaration: how a flip-flop is mentioned, an operand resolved, a
pin declared, and a word read. All that a text keeps is kept by these steps. -/

namespace GateLevel

theorem exists_of_bind_eq_ok {ε α β : Type} {first : Except ε α} {next : α → Except ε β}
    {result : β} (done : first >>= next = .ok result) :
    ∃ value, first = .ok value ∧ next value = .ok result := by
  cases first with
  | error cause => cases done
  | ok value => exact ⟨value, rfl, done⟩

namespace Header

structure Extends (before after : Header) : Prop where
  inputs : before.inputs <+: after.inputs
  outputs : before.outputs <+: after.outputs
  flipflops : before.flipflops <+: after.flipflops

theorem Extends.refl (header : Header) : header.Extends header :=
  ⟨List.prefix_refl _, List.prefix_refl _, List.prefix_refl _⟩

theorem Extends.declares {before after : Header} (grows : before.Extends after) {signal : Signal}
    (declared : before.Declares signal) : after.Declares signal := by
  cases signal with
  | input index => exact Nat.lt_of_lt_of_le declared grows.inputs.length_le
  | output index => exact Nat.lt_of_lt_of_le declared grows.outputs.length_le
  | flipflop index => exact Nat.lt_of_lt_of_le declared grows.flipflops.length_le

end Header

namespace Declaration

def Enrols (before after : Declaration) : Prop :=
  ∃ numbers, after = { before with flipflops := before.flipflops ++ numbers }

namespace Enrols

variable {before middle after : Declaration}

theorem refl (declaration : Declaration) : declaration.Enrols declaration :=
  ⟨[], by rw [List.append_nil]⟩

theorem trans (front : before.Enrols middle) (back : middle.Enrols after) :
    before.Enrols after := by
  obtain ⟨numbers, rfl⟩ := front
  obtain ⟨more, rfl⟩ := back
  exact ⟨numbers ++ more, by rw [List.append_assoc]⟩

theorem grows (enrols : before.Enrols after) : before.Extends after.toHeader := by
  obtain ⟨numbers, rfl⟩ := enrols
  exact ⟨List.prefix_refl _, List.prefix_refl _, List.prefix_append _ _⟩

theorem assignments (enrols : before.Enrols after) : after.assignments = before.assignments := by
  obtain ⟨numbers, rfl⟩ := enrols
  rfl

end Enrols

end Declaration

namespace Source

variable {before middle after : Declaration}

inductive Mention (number : UInt16) (before : Declaration) : Nat → Declaration → Prop
  | again {slot : Nat} (found : before.flipflops.idxOf? number = some slot) :
      Mention number before slot before
  | first (clocked : before.clocked = true) (fresh : number ∉ before.flipflops) :
      Mention number before before.flipflops.length
        { before with flipflops := before.flipflops ++ [number] }

theorem mention_of_eq_ok {number : UInt16} {slot : Nat}
    (mentioned : mentionFlipflop number before = .ok (slot, after)) :
    Mention number before slot after := by
  simp only [mentionFlipflop, declareFlipflop] at mentioned
  split at mentioned
  · rename_i clocked
    cases found : before.flipflops.idxOf? number with
    | some slot =>
        simp only [found] at mentioned
        cases mentioned
        exact .again found
    | none =>
        simp only [found] at mentioned
        cases mentioned
        exact .first clocked (List.idxOf?_eq_none_iff.mp found)
  · cases mentioned

theorem Mention.enrols {number : UInt16} {slot : Nat} (mention : Mention number before slot after) :
    before.Enrols after := by
  cases mention with
  | again _ => exact .refl _
  | first _ _ => exact ⟨[number], rfl⟩

inductive Resolves (word : List Char) (before : Declaration) : Signal → Declaration → Prop
  | flipflop {number : UInt16} {slot : Nat} {after : Declaration}
      (named : flipflopNumber? word = .ok (some number))
      (mention : Mention number before slot after) : Resolves word before (.flipflop slot) after
  | input {index : Nat} (unnumbered : flipflopNumber? word = .ok none)
      (found : before.inputs.idxOf? (String.ofList word) = some index) :
      Resolves word before (.input index) before
  | output {index : Nat} (unnumbered : flipflopNumber? word = .ok none)
      (found : before.outputs.idxOf? (String.ofList word) = some index) :
      Resolves word before (.output index) before

theorem resolves_of_eq_ok {word : List Char} {signal : Signal}
    (resolved : resolveOperand word before = .ok (signal, after)) :
    Resolves word before signal after := by
  obtain ⟨number, named, rest⟩ := exists_of_bind_eq_ok resolved
  cases number with
  | some number =>
      obtain ⟨⟨slot, later⟩, mentioned, done⟩ := exists_of_bind_eq_ok rest
      cases done
      exact .flipflop named (mention_of_eq_ok mentioned)
  | none =>
      dsimp only at rest
      split at rest
      · rename_i index found
        cases rest
        exact .input named found
      · split at rest
        · rename_i index found
          cases rest
          exact .output named found
        · cases rest

theorem Resolves.enrols {word : List Char} {signal : Signal}
    (resolves : Resolves word before signal after) : before.Enrols after := by
  cases resolves with
  | flipflop _ mention => exact mention.enrols
  | input _ _ => exact .refl _
  | output _ _ => exact .refl _

inductive ResolvesAll : List Item → Declaration → List Token → Declaration → Prop
  | nil {declaration : Declaration} : ResolvesAll [] declaration [] declaration
  | gate {kind : Gate} {items : List Item} {tokens : List Token} {before after : Declaration}
      (rest : ResolvesAll items before tokens after) :
      ResolvesAll (.gate kind :: items) before (.gate kind :: tokens) after
  | operand {word : List Char} {signal : Signal} {items : List Item} {tokens : List Token}
      {before middle after : Declaration} (first : Resolves word before signal middle)
      (rest : ResolvesAll items middle tokens after) :
      ResolvesAll (.operand word :: items) before (.signal signal :: tokens) after

theorem resolvesAll_of_eq_ok {items : List Item} {tokens : List Token}
    (resolved : resolveItems items before = .ok (tokens, after)) :
    ResolvesAll items before tokens after := by
  induction items generalizing before tokens with
  | nil =>
      cases resolved
      exact .nil
  | cons item rest ih =>
      cases item with
      | gate kind =>
          obtain ⟨⟨others, last⟩, later, done⟩ := exists_of_bind_eq_ok resolved
          cases done
          exact .gate (ih later)
      | operand word =>
          obtain ⟨⟨signal, middle⟩, first, more⟩ := exists_of_bind_eq_ok resolved
          obtain ⟨⟨others, last⟩, later, done⟩ := exists_of_bind_eq_ok more
          cases done
          exact .operand (resolves_of_eq_ok first) (ih later)

theorem ResolvesAll.enrols {items : List Item} {tokens : List Token}
    (resolves : ResolvesAll items before tokens after) : before.Enrols after := by
  induction resolves with
  | nil => exact .refl _
  | gate _ ih => exact ih
  | operand first _ ih => exact first.enrols.trans ih

inductive Assigns (target : Target) (words : List (List Char)) (before : Declaration) :
    Declaration → Prop
  | appends {items : List Item} {tokens : List Token} {later : Declaration}
      (read : itemsOfWords words = some items)
      (resolves : ResolvesAll items before tokens later) :
      Assigns target words before
        { later with assignments := before.assignments ++ [⟨target, tokens⟩] }

theorem assigns_of_eq_ok {target : Target} {words : List (List Char)}
    (added : addAssignment target words before = .ok after) :
    Assigns target words before after := by
  simp only [addAssignment] at added
  split at added
  · cases added
  · rename_i items read
    obtain ⟨⟨tokens, later⟩, resolved, done⟩ := exists_of_bind_eq_ok added
    cases done
    have resolves := resolvesAll_of_eq_ok resolved
    have appends : Assigns target words before _ := .appends read resolves
    rwa [← resolves.enrols.assignments] at appends

inductive DeclaresPin (before : Declaration) : Declaration → Prop
  | nothing : DeclaresPin before before
  | input {name : String} (named : name ≠ "") (fresh : name ∉ before.inputs ++ before.outputs) :
      DeclaresPin before { before with inputs := before.inputs ++ [name] }
  | output {name : String} (named : name ≠ "") (fresh : name ∉ before.inputs ++ before.outputs) :
      DeclaresPin before { before with outputs := before.outputs ++ [name] }

theorem declaresPin_of_eq_ok {direction : Direction} {word : List Char}
    (declared : declarePin direction word before = .ok after) : DeclaresPin before after := by
  simp only [declarePin] at declared
  split at declared
  · cases declared
    exact .nothing
  · rename_i named
    split at declared
    · cases declared
    · rename_i fresh
      rw [Bool.or_eq_true, List.contains_iff_mem, List.contains_iff_mem, ← List.mem_append] at fresh
      have nonempty : String.ofList (Words.dropTrailing ',' word) ≠ "" := by
        simpa [String.isEmpty_iff] using named
      cases direction with
      | input =>
          cases declared
          exact .input nonempty fresh
      | output =>
          cases declared
          exact .output nonempty fresh

theorem DeclaresPin.grows (declares : DeclaresPin before after) :
    before.Extends after.toHeader := by
  cases declares with
  | nothing => exact .refl _
  | input _ _ => exact ⟨List.prefix_append _ _, List.prefix_refl _, List.prefix_refl _⟩
  | output _ _ => exact ⟨List.prefix_refl _, List.prefix_append _ _, List.prefix_refl _⟩

theorem DeclaresPin.assignments (declares : DeclaresPin before after) :
    after.assignments = before.assignments := by
  cases declares <;> rfl

/-- What no single pin breaks holds still when all are declared. -/
theorem declarePins_induction {holds : Declaration → Prop}
    (pin : ∀ {before after}, holds before → DeclaresPin before after → holds after)
    {direction : Direction} {words : List (List Char)}
    (declared : declarePins direction words before = .ok after) (start : holds before) :
    holds after := by
  induction words generalizing before with
  | nil =>
      cases declared
      exact start
  | cons word rest ih =>
      obtain ⟨middle, first, later⟩ := exists_of_bind_eq_ok declared
      exact ih later (pin start (declaresPin_of_eq_ok first))

inductive Move : Reader → List Char → Reader → Prop
  | opens {declaration : Declaration} :
      Move ⟨.outside, declaration⟩ "module".toList ⟨.name, declaration⟩
  | names {declaration : Declaration} {word : List Char} :
      Move ⟨.name, declaration⟩ word
        ⟨.pins, { declaration with name := String.ofList (Words.dropTrailing '(' word) }⟩
  | skips {declaration : Declaration} {word : List Char} (bare : Words.dropOpening word = []) :
      Move ⟨.pins, declaration⟩ word ⟨.pins, declaration⟩
  | clocks {declaration : Declaration} {word : List Char}
      (clock : Words.dropOpening word = "clk".toList) :
      Move ⟨.pins, declaration⟩ word ⟨.pins, { declaration with clocked := true }⟩
  | closes {declaration : Declaration} {word : List Char}
      (closed : Words.dropOpening word = ");".toList) :
      Move ⟨.pins, declaration⟩ word ⟨.body, declaration⟩
  | ends {declaration : Declaration} :
      Move ⟨.body, declaration⟩ "endmodule".toList ⟨.outside, declaration⟩
  | assigns {declaration : Declaration} :
      Move ⟨.body, declaration⟩ "assign".toList ⟨.target, declaration⟩
  | drives {before after : Declaration} {word : List Char} {number : UInt16} {slot : Nat}
      (named : flipflopNumber? word = .ok (some number))
      (mention : Mention number before slot after) :
      Move ⟨.body, before⟩ word ⟨.equals (.flipflop slot), after⟩
  | targets {declaration : Declaration} {word : List Char} {index : Nat}
      (found : declaration.outputs.idxOf? (String.ofList word) = some index) :
      Move ⟨.target, declaration⟩ word ⟨.equals (.output index), declaration⟩

def Direction.keyword : Direction → List Char
  | .input => "input".toList
  | .output => "output".toList

/-- What a word does, whatever follows it on its line: it is taken by itself, it begins a list of
pins or an expression, or it does not belong where it stands. -/
inductive WordStep (phase : Phase) (before : Declaration) (word : List Char) : Prop
  | moves (reader : Reader) (move : Move ⟨phase, before⟩ word reader)
      (read : ∀ rest, readWords (word :: rest) phase before =
        readWords rest reader.phase reader.declaration)
  | lists (direction : Direction) (pins : phase = .pins)
      (keyword : Words.dropOpening word = direction.keyword)
      (read : ∀ rest, readWords (word :: rest) phase before =
        declarePins direction rest before >>= fun after => .ok ⟨.pins, after⟩)
  | assigns (target : Target) (equals : phase = .equals target) (sign : word = ['='])
      (read : ∀ rest, readWords (word :: rest) phase before =
        addAssignment target rest before >>= fun after => .ok ⟨.body, after⟩)
  | fails (fault : Fault) (read : ∀ rest, readWords (word :: rest) phase before = .error fault)

theorem wordStep_pins (before : Declaration) (word : List Char) :
    WordStep .pins before word := by
  by_cases bare : Words.dropOpening word = []
  · refine .moves _ (.skips bare) fun rest => ?_
    simp only [readWords]
    rw [if_pos bare]
  by_cases clock : Words.dropOpening word = "clk".toList
  · refine .moves _ (.clocks clock) fun rest => ?_
    simp only [readWords]
    rw [if_neg bare, if_pos clock]
  by_cases inputs : Words.dropOpening word = "input".toList
  · refine .lists .input rfl inputs fun rest => ?_
    simp only [readWords]
    rw [if_neg bare, if_neg clock, if_pos inputs]
    rfl
  by_cases outputs : Words.dropOpening word = "output".toList
  · refine .lists .output rfl outputs fun rest => ?_
    simp only [readWords]
    rw [if_neg bare, if_neg clock, if_neg inputs, if_pos outputs]
    rfl
  by_cases closed : Words.dropOpening word = ");".toList
  · refine .moves _ (.closes closed) fun rest => ?_
    simp only [readWords]
    rw [if_neg bare, if_neg clock, if_neg inputs, if_neg outputs, if_pos closed]
  · refine .fails (.unexpectedToken (String.ofList (Words.dropOpening word))) fun rest => ?_
    simp only [readWords]
    rw [if_neg bare, if_neg clock, if_neg inputs, if_neg outputs, if_neg closed]
    rfl

theorem move_of_readBodyWord {word : List Char} {reader : Reader}
    (read : readBodyWord word before = .ok reader) : Move ⟨.body, before⟩ word reader := by
  simp only [readBodyWord] at read
  split at read
  · rename_i ended
    cases read
    rw [ended]
    exact .ends
  · split at read
    · rename_i assigned
      cases read
      rw [assigned]
      exact .assigns
    · obtain ⟨number, named, rest⟩ := exists_of_bind_eq_ok read
      cases number with
      | none => cases rest
      | some number =>
          obtain ⟨⟨slot, later⟩, mentioned, done⟩ := exists_of_bind_eq_ok rest
          cases done
          exact .drives named (mention_of_eq_ok mentioned)

theorem wordStep (phase : Phase) (before : Declaration) (word : List Char) :
    WordStep phase before word := by
  cases phase with
  | outside =>
      by_cases opened : word = "module".toList
      · subst opened
        exact .moves _ .opens fun rest => by rw [readWords, if_pos rfl]
      · exact .fails _ fun rest => by
          rw [readWords, if_neg opened]
          rfl
  | name => exact .moves _ .names fun rest => by rw [readWords]
  | pins => exact wordStep_pins before word
  | body =>
      cases read : readBodyWord word before with
      | error fault =>
          exact .fails fault fun rest => by
            rw [readWords, read]
            rfl
      | ok reader =>
          exact .moves reader (move_of_readBodyWord read) fun rest => by
            rw [readWords, read]
            rfl
  | target =>
      cases found : before.outputs.idxOf? (String.ofList word) with
      | none =>
          exact .fails _ fun rest => by
            simp only [readWords, found]
            rfl
      | some index =>
          exact .moves _ (.targets found) fun rest => by simp only [readWords, found]
  | equals target =>
      by_cases assigned : word = ['=']
      · exact .assigns target rfl assigned fun rest => by
          rw [readWords, if_pos assigned]
          rfl
      · exact .fails _ fun rest => by
          rw [readWords, if_neg assigned]
          rfl

/-- The words of a line take the reader to its end. A list of pins and an expression are taken as a
whole. -/
inductive Passage : Reader → List (List Char) → Reader → Prop
  | done {reader : Reader} : Passage reader [] reader
  | move {reader middle after : Reader} {word : List Char} {rest : List (List Char)}
      (first : Move reader word middle) (later : Passage middle rest after) :
      Passage reader (word :: rest) after
  | list {before after : Declaration} {direction : Direction} {word : List Char}
      {pins : List (List Char)} (keyword : Words.dropOpening word = direction.keyword)
      (declared : declarePins direction pins before = .ok after) :
      Passage ⟨.pins, before⟩ (word :: pins) ⟨.pins, after⟩
  | assign {before after : Declaration} {target : Target} {words : List (List Char)}
      (assigns : Assigns target words before after) :
      Passage ⟨.equals target, before⟩ (['='] :: words) ⟨.body, after⟩

theorem passage_of_eq_ok {words : List (List Char)} {phase : Phase} {reader : Reader}
    (read : readWords words phase before = .ok reader) : Passage ⟨phase, before⟩ words reader := by
  induction words generalizing phase before with
  | nil =>
      cases read
      exact .done
  | cons word rest ih =>
      cases wordStep phase before word with
      | moves middle move step =>
          rw [step] at read
          exact .move move (ih read)
      | lists direction pins keyword step =>
          rw [step] at read
          obtain ⟨after, declared, done⟩ := exists_of_bind_eq_ok read
          cases done
          subst pins
          exact .list keyword declared
      | assigns target equals sign step =>
          rw [step] at read
          obtain ⟨after, added, done⟩ := exists_of_bind_eq_ok read
          cases done
          subst equals sign
          exact .assign (assigns_of_eq_ok added)
      | fails fault step =>
          rw [step] at read
          cases read

theorem Move.grows {reader next : Reader} {word : List Char} (move : Move reader word next) :
    reader.declaration.Extends next.declaration.toHeader := by
  cases move with
  | drives _ mention => exact mention.enrols.grows
  | _ => exact ⟨List.prefix_refl _, List.prefix_refl _, List.prefix_refl _⟩

theorem Move.assignments {reader next : Reader} {word : List Char} (move : Move reader word next) :
    next.declaration.assignments = reader.declaration.assignments := by
  cases move with
  | drives _ mention => exact mention.enrols.assignments
  | _ => rfl

namespace Reader

theorem readLine_eq_ok {line : List Char} {reader after : Reader}
    (read : reader.readLine line = .ok after) :
    isComment line = true ∧ after = reader ∨
      isComment line = false ∧ Passage reader (Text.words line) after := by
  simp only [readLine] at read
  split at read
  · rename_i comment
    cases read
    exact Or.inl ⟨comment, rfl⟩
  · rename_i visible
    exact Or.inr ⟨Bool.eq_false_iff.mpr visible, passage_of_eq_ok read⟩

theorem finish_eq_ok {reader : Reader} {declaration : Declaration}
    (finished : reader.finish = .ok declaration) : reader = ⟨.outside, declaration⟩ := by
  obtain ⟨phase, last⟩ := reader
  cases phase with
  | outside =>
      cases finished
      rfl
  | _ => cases finished

end Reader

theorem readLines_of_readDeclaration {text : String} {declaration : Declaration}
    (read : readDeclaration text = .ok declaration) :
    Reader.readLines 1 (Text.lines text.toList) .start = .ok ⟨.outside, declaration⟩ := by
  obtain ⟨reader, lines, finished⟩ := exists_of_bind_eq_ok read
  rw [lines, Reader.finish_eq_ok finished]

end Source

end GateLevel
