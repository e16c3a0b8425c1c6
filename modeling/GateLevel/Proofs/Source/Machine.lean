import GateLevel.Proofs.Correspondence
import GateLevel.Proofs.Source.Conservation
import GateLevel.Proofs.Source.Steps
import GateLevel.Source.Machine

/-! The machine reads what the reader reads. It takes an expression piece by piece as the reader
arranges it, and its maps lead to the places that the reader searches for. -/

namespace GateLevel.Source

namespace Arranger

theorem flush_eq (output : List Item) (pending : List Pending) :
    flush output pending = ⟨output ++ Pending.flushed pending, Pending.beneath pending⟩ := by
  induction pending generalizing output with
  | nil => simp [flush, Pending.flushed, Pending.gates, Pending.beneath]
  | cons top below ih =>
      cases top with
      | opening => simp [flush, Pending.flushed, Pending.gates, Pending.beneath]
      | gate kind => rw [flush, ih, List.append_assoc]; rfl

theorem close_eq (output : List Item) (pending : List Pending) :
    close output pending = match Pending.beneath pending with
      | .opening :: below => .ok ⟨output ++ Pending.flushed pending, below⟩
      | _ => .error .mismatchedParentheses := by
  fun_induction close output pending with
  | case1 output kind below ih =>
      rw [ih, Pending.beneath]
      cases Pending.beneath below with
      | nil => rfl
      | cons top lower =>
          cases top with
          | gate kind => rfl
          | opening => simp [Pending.flushed, Pending.gates]
  | case2 output below => simp [Pending.beneath, Pending.flushed, Pending.gates]
  | case3 output => rfl

def answer (output : List Item) : Option (List Item) → Except Fault (List Item)
  | some items => .ok (output ++ items)
  | none => .error .mismatchedParentheses

theorem answer_map (output front : List Item) (items : Option (List Item)) :
    answer output (items.map (front ++ ·)) = answer (output ++ front) items := by
  cases items with
  | none => rfl
  | some items => simp [answer]

theorem finish_eq (output : List Item) (pending : List Pending) :
    finish output pending = answer output (arrange [] pending) := by
  fun_induction finish output pending with
  | case1 output kind below ih =>
      rw [ih, arrange, arrange, Pending.beneath]
      cases Pending.beneath below with
      | nil => simp [answer, Pending.flushed, Pending.gates]
      | cons top lower => rfl
  | case2 output below => rfl
  | case3 output => simp [answer, arrange, Pending.beneath, Pending.flushed, Pending.gates]

theorem takeAtom_arrange (word : List Char) (rest : List Atom) (arranger : Arranger) :
    (arranger.takeAtom word >>= fun next => answer next.output (arrange rest next.pending)) =
      answer arranger.output (arrange (Atom.ofWord word :: rest) arranger.pending) := by
  simp only [takeAtom, Atom.ofWord]
  by_cases opening : word = ['(']
  · rw [if_pos opening, if_pos opening]
    rfl
  by_cases closing : word = [')']
  · rw [if_neg opening, if_neg opening, if_pos closing, if_pos closing, close_eq, arrange]
    cases Pending.beneath arranger.pending with
    | nil => rfl
    | cons top below =>
        cases top with
        | gate kind => rfl
        | opening => exact (answer_map ..).symm
  · rw [if_neg opening, if_neg opening, if_neg closing, if_neg closing]
    cases Gate.ofMnemonic? (String.ofList word) with
    | none => exact (answer_map ..).symm
    | some gate =>
        cases gate with
        | not => rfl
        | binary gate =>
            dsimp only
            rw [flush_eq, arrange, answer_map]
            rfl

theorem takeAtoms_arrange (words : List (List Char)) (arranger : Arranger) :
    (words.foldlM (fun arranger word => arranger.takeAtom word) arranger >>= fun arranger =>
        finish arranger.output arranger.pending) =
      answer arranger.output (arrange (words.map Atom.ofWord) arranger.pending) := by
  induction words generalizing arranger with
  | nil => exact finish_eq arranger.output arranger.pending
  | cons word rest ih =>
      rw [List.foldlM_cons, bind_assoc, List.map_cons, ← takeAtom_arrange]
      exact congrArg _ (funext ih)

theorem take_eq (word : List Char) (arranger : Arranger) :
    arranger.take word =
      (peel word).foldlM (fun arranger word => arranger.takeAtom word) arranger := by
  fun_induction take word arranger with
  | case1 word arranger short =>
      have bare : peel word = [word] := by
        refine peel_bare (fun rest same => ?_) (fun front same => ?_)
        · rw [same, List.length_cons] at short
          exact List.eq_nil_of_length_eq_zero (by omega)
        · rw [same, List.length_append, List.length_singleton] at short
          exact List.eq_nil_of_length_eq_zero (by omega)
      simp only [bare, List.foldlM_cons, List.foldlM_nil, bind_pure]
  | case2 word arranger long opened ih =>
      obtain ⟨rest, rfl⟩ := List.head?_eq_some_iff.mp opened
      have nonempty : rest ≠ [] := by
        rintro rfl
        exact long (Nat.le_refl 1)
      rw [peel_opening nonempty, List.foldlM_cons]
      exact congrArg _ (funext ih)
  | case3 word arranger long unopened closed ih =>
      obtain ⟨front, rfl⟩ := List.getLast?_eq_some_iff.mp closed
      have nonempty : front ≠ [] := by
        rintro rfl
        exact long (Nat.le_refl 1)
      rw [List.dropLast_concat] at ih
      rw [List.dropLast_concat, ih, peel_closing nonempty, List.foldlM_append]
      simp only [List.foldlM_cons, List.foldlM_nil, bind_pure]
  | case4 word arranger long unopened unclosed =>
      have bare : peel word = [word] := by
        refine peel_bare (fun rest same => ?_) (fun front same => ?_)
        · exact absurd (by rw [same]; rfl) unopened
        · exact absurd (by rw [same, List.getLast?_concat]) unclosed
      simp only [bare, List.foldlM_cons, List.foldlM_nil, bind_pure]

theorem take_words (words : List (List Char)) (arranger : Arranger) :
    words.foldlM (fun arranger word => arranger.take word) arranger =
      (words.flatMap peel).foldlM (fun arranger word => arranger.takeAtom word) arranger := by
  induction words generalizing arranger with
  | nil => rfl
  | cons word rest ih =>
      rw [List.foldlM_cons, List.flatMap_cons, List.foldlM_append, take_eq]
      exact congrArg _ (funext ih)

theorem arranges (words : List (List Char)) :
    (words.foldlM (fun arranger word => arranger.take word) empty >>= fun arranger =>
        finish arranger.output arranger.pending) = answer [] (itemsOfWords words) := by
  rw [take_words, takeAtoms_arrange]
  rfl

end Arranger

def Indexes {α : Type} [BEq α] (map : List (α × Nat)) (list : List α) : Prop :=
  ∀ key, map.lookup key = list.idxOf? key

namespace Indexes

variable {α : Type} [BEq α] [LawfulBEq α] {map : List (α × Nat)} {list : List α} {key : α}

theorem isSome_lookup (indexes : Indexes map list) (key : α) :
    (map.lookup key).isSome = list.contains key := by
  rw [indexes, Bool.eq_iff_iff, List.contains_iff_mem, Option.isSome_iff_ne_none, ne_eq,
    List.idxOf?_eq_none_iff, not_not]

theorem insert (indexes : Indexes map list) (fresh : key ∉ list) :
    Indexes ((key, list.length) :: map) (list ++ [key]) := by
  intro other
  have searched := indexes other
  rw [List.idxOf?] at searched ⊢
  rw [List.lookup_cons, List.findIdx?_append, searched]
  by_cases same : other = key
  · subst same
    have none : list.findIdx? (· == other) = none := List.idxOf?_eq_none_iff.mpr fresh
    simp [none]
  · simp [beq_false_of_ne same, Ne.symm same]

end Indexes

namespace Phase

def state : Phase → Machine.State
  | .outside => .idle
  | .name => .moduleName
  | .pins => .parameters
  | .body => .body
  | .target => .assignTarget
  | .equals goal => .equals goal

end Phase

def Direction.state : Direction → Machine.State
  | .input => .inputs
  | .output => .outputs

namespace Machine

theorem readWords_cons (word : List Char) (rest : List (List Char)) (machine : Machine) :
    machine.readWords (word :: rest) = machine.take word >>= readWords rest := by
  rw [readWords, List.foldlM_cons, bind_assoc]
  rfl

structure Mirrors (machine : Machine) (declaration : Declaration) : Prop where
  declared : machine.declaration = declaration
  inputs : Indexes machine.inputs declaration.inputs
  outputs : Indexes machine.outputs declaration.outputs
  flipflops : Indexes machine.flipflops declaration.flipflops

/-- The machine is in the state of the reader, as it is between two lines. -/
structure Agrees (machine : Machine) (reader : Reader) : Prop where
  state : machine.state = reader.phase.state
  mirrors : machine.Mirrors reader.declaration

structure Beside {α : Type} (first : α × Machine) (second : α × Declaration) : Prop where
  same : first.1 = second.1
  mirrors : first.2.Mirrors second.2

namespace Mirrors

variable {machine : Machine} {declaration : Declaration}

theorem enter (mirrors : machine.Mirrors declaration) (state : State) :
    (machine.enter state).Mirrors declaration :=
  ⟨mirrors.declared, mirrors.inputs, mirrors.outputs, mirrors.flipflops⟩

theorem mention (mirrors : machine.Mirrors declaration) (number : UInt16) :
    Matched Beside (machine.mention number) (mentionFlipflop number declaration) := by
  obtain ⟨rfl, inputs, outputs, flipflops⟩ := mirrors
  rw [Machine.mention, mentionFlipflop]
  split
  · rw [slot, declareFlipflop, flipflops number]
    cases found : machine.declaration.flipflops.idxOf? number with
    | some slot => exact .ok ⟨rfl, rfl, inputs, outputs, flipflops⟩
    | none =>
        have grown := flipflops.insert (List.idxOf?_eq_none_iff.mp found)
        exact .ok ⟨rfl, rfl, inputs, outputs, grown⟩
  · exact .error _

theorem resolveOperand (mirrors : machine.Mirrors declaration) (word : List Char) :
    Matched Beside (machine.resolveOperand word) (Source.resolveOperand word declaration) := by
  rw [Machine.resolveOperand, Source.resolveOperand]
  cases flipflopNumber? word with
  | error fault => exact .error fault
  | ok number =>
      cases number with
      | some number =>
          exact (mirrors.mention number).bind fun _ _ beside =>
            .ok ⟨by rw [beside.same], beside.mirrors⟩
      | none =>
          simp only [bind, Except.bind]
          rw [mirrors.inputs, mirrors.outputs]
          cases declaration.inputs.idxOf? (String.ofList word) with
          | some index => exact .ok ⟨rfl, mirrors⟩
          | none =>
              cases declaration.outputs.idxOf? (String.ofList word) with
              | some index => exact .ok ⟨rfl, mirrors⟩
              | none => exact .error _

theorem compile (mirrors : machine.Mirrors declaration) (items : List Item) :
    Matched Beside (machine.compile items) (resolveItems items declaration) := by
  induction items generalizing machine declaration with
  | nil => exact .ok ⟨rfl, mirrors⟩
  | cons item rest ih =>
      cases item with
      | gate gate =>
          exact (ih mirrors).bind fun _ _ beside =>
            .ok ⟨by rw [beside.same], beside.mirrors⟩
      | operand word =>
          refine (mirrors.resolveOperand word).bind fun _ _ first => ?_
          refine (ih first.mirrors).bind fun _ _ later => ?_
          exact .ok ⟨by rw [first.same, later.same], later.mirrors⟩

theorem declarePin (mirrors : machine.Mirrors declaration) (direction : Direction)
    (word : List Char) :
    Matched (fun later declaration => later.Mirrors declaration ∧ later.state = machine.state)
      (machine.declarePin direction word) (Source.declarePin direction word declaration) := by
  obtain ⟨rfl, inputs, outputs, flipflops⟩ := mirrors
  simp only [Machine.declarePin, Source.declarePin, knows, inputs.isSome_lookup,
    outputs.isSome_lookup]
  split
  · exact .ok ⟨⟨rfl, inputs, outputs, flipflops⟩, rfl⟩
  · split
    · exact .error _
    · rename_i fresh
      simp only [Bool.or_eq_true, List.contains_iff_mem, not_or] at fresh
      cases direction with
      | input => exact .ok ⟨⟨rfl, inputs.insert fresh.1, outputs, flipflops⟩, rfl⟩
      | output => exact .ok ⟨⟨rfl, inputs, outputs.insert fresh.2, flipflops⟩, rfl⟩

/-- A list of pins runs to the end of its line. -/
theorem pins (mirrors : machine.Mirrors declaration) (direction : Direction)
    (inside : machine.state = direction.state) (words : List (List Char)) :
    Matched Agrees (machine.readWords words)
      (declarePins direction words declaration >>= fun after => .ok ⟨.pins, after⟩) := by
  induction words generalizing machine declaration with
  | nil =>
      have ends : machine.endLine = .ok (machine.enter .parameters) := by
        rw [endLine, inside]
        cases direction <;> rfl
      change Matched Agrees machine.endLine (.ok ⟨.pins, declaration⟩)
      rw [ends]
      exact .ok ⟨rfl, mirrors.enter _⟩
  | cons word rest ih =>
      have takes : machine.take word = machine.declarePin direction word := by
        rw [take, inside]
        cases direction <;> rfl
      rw [readWords_cons, takes, declarePins, bind_assoc]
      exact (mirrors.declarePin direction word).bind fun _ _ first =>
        ih first.1 (first.2.trans inside)

theorem foldlM_take_expression {target : Target} {arranger : Arranger}
    (inside : machine.state = .expression target arranger) (words : List (List Char)) :
    words.foldlM (fun machine word => machine.take word) machine =
      words.foldlM (fun arranger word => arranger.take word) arranger >>= fun arranger =>
        .ok (machine.enter (.expression target arranger)) := by
  induction words generalizing machine arranger with
  | nil =>
      change Except.ok machine = .ok (machine.enter (.expression target arranger))
      rw [← inside]
      rfl
  | cons word rest ih =>
      have takes : machine.take word = arranger.take word >>= fun arranger =>
          .ok (machine.enter (.expression target arranger)) := by
        rw [take, inside]
        rfl
      rw [List.foldlM_cons, List.foldlM_cons, takes, bind_assoc, bind_assoc]
      refine congrArg _ (funext fun next => ?_)
      exact ih rfl

/-- An expression runs to the end of its line, and is compiled there. -/
theorem expression (mirrors : machine.Mirrors declaration) {target : Target}
    (inside : machine.state = .expression target .empty) (words : List (List Char)) :
    Matched Agrees (machine.readWords words)
      (addAssignment target words declaration >>= fun after => .ok ⟨.body, after⟩) := by
  have arranged := Arranger.arranges words
  rw [readWords, foldlM_take_expression inside, bind_assoc, addAssignment]
  cases taken : words.foldlM (fun arranger word => arranger.take word) Arranger.empty with
  | error fault =>
      rw [taken] at arranged
      cases read : itemsOfWords words with
      | none =>
          rw [read] at arranged
          cases arranged
          exact .error _
      | some items =>
          rw [read] at arranged
          cases arranged
  | ok arranger =>
      rw [taken] at arranged
      change Arranger.finish arranger.output arranger.pending = _ at arranged
      have ends : (machine.enter (.expression target arranger)).endLine =
          Arranger.finish arranger.output arranger.pending >>= fun items =>
            (machine.enter (.expression target arranger)).compile items >>= fun compiled =>
              .ok { compiled.2 with
                state := .body
                declaration := { compiled.2.declaration with
                  assignments := compiled.2.declaration.assignments ++
                    [⟨target, compiled.1⟩] } } := rfl
      change Matched Agrees (machine.enter (.expression target arranger)).endLine _
      rw [ends, arranged]
      cases read : itemsOfWords words with
      | none => exact .error _
      | some items =>
          change Matched Agrees ((machine.enter _).compile items >>= _)
            ((resolveItems items declaration >>= _) >>= _)
          rw [bind_assoc]
          refine ((mirrors.enter _).compile items).bind fun compiled resolved beside => ?_
          obtain ⟨expression, later⟩ := compiled
          obtain ⟨tokens, after⟩ := resolved
          obtain ⟨rfl, rfl, inputs, outputs, flipflops⟩ := beside
          exact .ok ⟨rfl, rfl, inputs, outputs, flipflops⟩

theorem bodyWord (mirrors : machine.Mirrors declaration) (word : List Char) :
    Matched Agrees (machine.takeBodyWord word) (readBodyWord word declaration) := by
  rw [takeBodyWord, readBodyWord]
  split
  · exact .ok ⟨rfl, mirrors.enter _⟩
  · split
    · exact .ok ⟨rfl, mirrors.enter _⟩
    · cases flipflopNumber? word with
      | error fault => exact .error fault
      | ok number =>
          cases number with
          | none => exact .error _
          | some number =>
              refine (mirrors.mention number).bind fun _ _ beside => ?_
              exact .ok ⟨by rw [beside.same]; rfl, beside.mirrors.enter _⟩

end Mirrors

namespace Agrees

variable {machine : Machine} {phase : Phase} {declaration : Declaration}

theorem readWords (agrees : machine.Agrees ⟨phase, declaration⟩) (words : List (List Char)) :
    Matched Agrees (machine.readWords words) (Source.readWords words phase declaration) := by
  induction words generalizing machine phase declaration with
  | nil =>
      have stays : machine.endLine = .ok machine := by
        rw [endLine, agrees.state]
        cases phase <;> rfl
      change Matched Agrees machine.endLine (.ok ⟨phase, declaration⟩)
      rw [stays]
      exact .ok agrees
  | cons word rest ih =>
      obtain ⟨state, mirrors⟩ := agrees
      rw [readWords_cons, take, state]
      cases phase with
      | outside =>
          simp only [Phase.state, Source.readWords]
          split
          · exact ih ⟨rfl, mirrors.enter _⟩
          · exact .error _
      | name =>
          obtain ⟨rfl, inputs, outputs, flipflops⟩ := mirrors
          exact ih ⟨rfl, rfl, inputs, outputs, flipflops⟩
      | pins =>
          simp only [Phase.state, Source.readWords, takeParameter]
          split
          · exact ih ⟨state, mirrors⟩
          · split
            · obtain ⟨rfl, inputs, outputs, flipflops⟩ := mirrors
              exact ih ⟨state, rfl, inputs, outputs, flipflops⟩
            · split
              · exact (mirrors.enter .inputs).pins .input rfl rest
              · split
                · exact (mirrors.enter .outputs).pins .output rfl rest
                · split
                  · exact ih ⟨rfl, mirrors.enter _⟩
                  · exact .error _
      | body => exact (mirrors.bodyWord word).bind fun _ _ later => ih later
      | target =>
          simp only [Phase.state, Source.readWords, mirrors.outputs _]
          cases declaration.outputs.idxOf? (String.ofList word) with
          | some index => exact ih ⟨rfl, mirrors.enter _⟩
          | none => exact .error _
      | equals target =>
          simp only [Phase.state, Source.readWords]
          split
          · exact (mirrors.enter _).expression rfl rest
          · exact .error _

/-- One line takes the machine and the reader along together, or makes both fail alike. -/
theorem readLine {reader : Reader} (agrees : machine.Agrees reader) (line : List Char) :
    Matched Agrees (machine.readLine line) (reader.readLine line) := by
  rw [Machine.readLine, Reader.readLine]
  split
  · exact .ok agrees
  · exact agrees.readWords (Text.words line)

theorem readLines {reader : Reader} (agrees : machine.Agrees reader) (number : Nat)
    (lines : List (List Char)) :
    Matched Agrees (Machine.readLines number lines machine)
      (Reader.readLines number lines reader) := by
  induction lines generalizing number machine reader with
  | nil => exact .ok agrees
  | cons line rest ih =>
      have first := agrees.readLine line
      rw [Machine.readLines, Reader.readLines]
      generalize machine.readLine line = taken at first ⊢
      generalize reader.readLine line = read at first ⊢
      cases first with
      | error fault => exact .error _
      | ok agrees => exact ih agrees (number + 1)

end Agrees

theorem agrees_start : start.Agrees .start :=
  ⟨rfl, rfl, fun _ => rfl, fun _ => rfl, fun _ => rfl⟩

theorem Agrees.finish {machine : Machine} {reader : Reader} (agrees : machine.Agrees reader) :
    machine.finish = reader.finish := by
  obtain ⟨state, declared, _, _, _⟩ := agrees
  rw [Machine.finish, Reader.finish, state, declared]
  cases reader.phase <;> rfl

/-- The machine reads every text as the reader does. -/
theorem readDeclaration_eq (text : String) :
    Machine.readDeclaration text = Source.readDeclaration text := by
  have lines := agrees_start.readLines 1 (Text.lines text.toList)
  rw [Machine.readDeclaration, Source.readDeclaration]
  generalize Machine.readLines 1 (Text.lines text.toList) start = taken at lines ⊢
  generalize Reader.readLines 1 (Text.lines text.toList) .start = read at lines ⊢
  cases lines with
  | error cause => rfl
  | ok agrees => exact agrees.finish

end Machine

end GateLevel.Source
