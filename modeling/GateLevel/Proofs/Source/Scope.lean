import GateLevel.Proofs.Acceptance
import GateLevel.Proofs.Source.Steps

/-! Whatever is read declares all that it mentions, and declares it once. The reader keeps this from
word to word, so that resolving can only refuse what takes the whole declaration to see. -/

namespace GateLevel

namespace Header

/-- No name is empty, none is declared twice, and flip-flops have a clock. -/
structure Tidy (header : Header) : Prop where
  ports_distinct : (header.inputs ++ header.outputs).Nodup
  ports_named : ∀ name ∈ header.inputs ++ header.outputs, name ≠ ""
  flipflops_distinct : header.flipflops.Nodup
  clocked : header.clocked = true ∨ header.flipflops = []

/-- The header has a place for all that the assignment mentions. -/
structure Covers (header : Header) (assignment : Assignment) : Prop where
  target : header.Declares assignment.target.signal
  operands : ∀ signal, Token.signal signal ∈ assignment.expression → header.Declares signal

theorem Covers.extend {before after : Header} {assignment : Assignment}
    (covers : before.Covers assignment) (grows : before.Extends after) :
    after.Covers assignment :=
  ⟨grows.declares covers.target,
    fun signal mentioned => grows.declares (covers.operands signal mentioned)⟩

end Header

namespace Declaration

structure Scoped (declaration : Declaration) : Prop where
  tidy : declaration.Tidy
  covers : ∀ assignment ∈ declaration.assignments, declaration.Covers assignment

theorem scoped_empty : empty.Scoped :=
  ⟨⟨List.nodup_nil, by simp [empty], List.nodup_nil, Or.inr rfl⟩, by simp [empty]⟩

/-- A new header is as good as the old one if it is tidy and has kept the old places. -/
theorem Scoped.withHeader {declaration : Declaration} (scope : declaration.Scoped)
    (header : Header) (tidy : header.Tidy) (grows : declaration.Extends header) :
    Scoped ⟨header, declaration.assignments⟩ :=
  ⟨tidy, fun assignment member => (scope.covers assignment member).extend grows⟩

/-- One more port leaves everything in order if it has a name of its own. -/
theorem Scoped.withPort {declaration : Declaration} (scope : declaration.Scoped) {header : Header}
    {name : String} (named : name ≠ "") (fresh : name ∉ declaration.inputs ++ declaration.outputs)
    (ports : (header.inputs ++ header.outputs).Perm
      (name :: (declaration.inputs ++ declaration.outputs)))
    (flipflops : header.flipflops = declaration.flipflops)
    (clocked : header.clocked = declaration.clocked) (grows : declaration.Extends header) :
    Scoped ⟨header, declaration.assignments⟩ := by
  refine scope.withHeader header ⟨?_, ?_, ?_, ?_⟩ grows
  · exact ports.nodup_iff.mpr (List.nodup_cons.mpr ⟨fresh, scope.tidy.ports_distinct⟩)
  · intro other member
    rcases List.mem_cons.mp (ports.mem_iff.mp member) with rfl | old
    · exact named
    · exact scope.tidy.ports_named other old
  · rw [flipflops]
    exact scope.tidy.flipflops_distinct
  · rw [flipflops, clocked]
    exact scope.tidy.clocked

end Declaration

namespace Source

open Declaration

theorem lt_length_of_idxOf? {α : Type} [BEq α] {x : α} {list : List α} {index : Nat}
    (found : list.idxOf? x = some index) : index < list.length :=
  (List.findIdx?_eq_some_iff_getElem.mp found).1

variable {before after : Declaration}

theorem Mention.scoped (scope : before.Scoped) {number : UInt16} {slot : Nat}
    (mention : Mention number before slot after) :
    after.Scoped ∧ after.Declares (.flipflop slot) := by
  have grows := mention.enrols.grows
  cases mention with
  | again found => exact ⟨scope, lt_length_of_idxOf? found⟩
  | first clocked fresh =>
      refine ⟨scope.withHeader _ ⟨scope.tidy.ports_distinct, scope.tidy.ports_named, ?_,
        Or.inl clocked⟩ grows, ?_⟩
      · exact List.nodup_middle.mpr (by simpa [fresh] using scope.tidy.flipflops_distinct)
      · simp [Header.Declares]

theorem Resolves.scoped (scope : before.Scoped) {word : List Char} {signal : Signal}
    (resolves : Resolves word before signal after) : after.Scoped ∧ after.Declares signal := by
  cases resolves with
  | flipflop _ mention => exact mention.scoped scope
  | input _ found => exact ⟨scope, lt_length_of_idxOf? found⟩
  | output _ found => exact ⟨scope, lt_length_of_idxOf? found⟩

theorem ResolvesAll.scoped (scope : before.Scoped) {items : List Item} {tokens : List Token}
    (resolves : ResolvesAll items before tokens after) :
    after.Scoped ∧ ∀ signal, Token.signal signal ∈ tokens → after.Declares signal := by
  induction resolves with
  | nil => exact ⟨scope, by simp⟩
  | gate _ ih => simpa using ih scope
  | operand first rest ih =>
      obtain ⟨middleScope, known⟩ := first.scoped scope
      obtain ⟨laterScope, declared⟩ := ih middleScope
      refine ⟨laterScope, ?_⟩
      intro signal member
      rcases List.mem_cons.mp member with same | other
      · rw [Token.signal.inj same]
        exact rest.enrols.grows.declares known
      · exact declared signal other

theorem Assigns.scoped (scope : before.Scoped) {target : Target}
    (declared : before.Declares target.signal) {words : List (List Char)}
    (assigns : Assigns target words before after) : after.Scoped := by
  cases assigns with
  | appends read resolves =>
      obtain ⟨laterScope, operands⟩ := resolves.scoped scope
      refine ⟨laterScope.tidy, ?_⟩
      intro assignment member
      rw [← resolves.enrols.assignments] at member
      rcases List.mem_append.mp member with earlier | last
      · exact laterScope.covers assignment earlier
      · obtain rfl := List.mem_singleton.mp last
        exact ⟨resolves.enrols.grows.declares declared, operands⟩

theorem DeclaresPin.scoped (scope : before.Scoped) (declares : DeclaresPin before after) :
    after.Scoped := by
  have grows := declares.grows
  cases declares with
  | nothing => exact scope
  | input named fresh =>
      refine scope.withPort named fresh ?_ rfl rfl grows
      rw [List.append_assoc, List.singleton_append]
      exact List.perm_middle
  | output named fresh =>
      refine scope.withPort named fresh ?_ rfl rfl grows
      rw [← List.append_assoc]
      exact List.perm_append_singleton _ _

structure Reader.Sound (reader : Reader) : Prop where
  scope : reader.declaration.Scoped
  target : ∀ target, reader.phase = .equals target → reader.declaration.Declares target.signal

theorem Move.sound {reader next : Reader} {word : List Char} (sound : reader.Sound)
    (move : Move reader word next) : next.Sound := by
  have tidy := sound.scope.tidy
  have grows := move.grows
  cases move with
  | names =>
      refine ⟨sound.scope.withHeader _ ?_ grows, by simp⟩
      exact ⟨tidy.ports_distinct, tidy.ports_named, tidy.flipflops_distinct, tidy.clocked⟩
  | clocks _ =>
      refine ⟨sound.scope.withHeader _ ?_ grows, by simp⟩
      exact ⟨tidy.ports_distinct, tidy.ports_named, tidy.flipflops_distinct, Or.inl rfl⟩
  | drives _ mention =>
      obtain ⟨scope, declared⟩ := mention.scoped sound.scope
      refine ⟨scope, ?_⟩
      rintro target same
      cases same
      exact declared
  | targets found =>
      refine ⟨sound.scope, ?_⟩
      rintro target same
      cases same
      exact lt_length_of_idxOf? found
  | _ => exact ⟨sound.scope, by simp⟩

/-- Reading the words of a line keeps the declaration in order, in whatever phase it begins. -/
theorem Passage.sound {reader after : Reader} {words : List (List Char)} (sound : reader.Sound)
    (passage : Passage reader words after) : after.Sound := by
  induction passage with
  | done => exact sound
  | move first _ ih => exact ih (first.sound sound)
  | list _ declared =>
      have scope := declarePins_induction (fun scope declares => declares.scoped scope) declared
        sound.scope
      exact ⟨scope, by simp⟩
  | assign assigns => exact ⟨assigns.scoped sound.scope (sound.target _ rfl), by simp⟩

theorem Reader.readLines_sound {lines : List (List Char)} {number : Nat} {reader after : Reader}
    (sound : reader.Sound) (read : readLines number lines reader = .ok after) : after.Sound := by
  induction lines generalizing number reader with
  | nil =>
      cases read
      exact sound
  | cons line rest ih =>
      simp only [readLines] at read
      split at read
      · cases read
      · rename_i middle first
        refine ih ?_ read
        rcases readLine_eq_ok first with ⟨_, rfl⟩ | ⟨_, passage⟩
        · exact sound
        · exact passage.sound sound

theorem Reader.readLines_ne_refused {lines : List (List Char)} {number : Nat} {reader : Reader}
    {cause : DeclarationError} : readLines number lines reader ≠ .error (.refused cause) := by
  induction lines generalizing number reader with
  | nil => simp [readLines]
  | cons line rest ih =>
      simp only [readLines]
      split
      · simp
      · exact ih

/-- Only resolving refuses a declaration. -/
theorem readDeclaration_ne_refused {text : String} {cause : DeclarationError} :
    readDeclaration text ≠ .error (.refused cause) := by
  simp only [readDeclaration, bind, Except.bind]
  split
  · rename_i failure failed
    intro same
    cases same
    exact Reader.readLines_ne_refused failed
  · simp only [Reader.finish]
    split <;> simp

theorem scoped_of_readDeclaration {text : String} {declaration : Declaration}
    (read : readDeclaration text = .ok declaration) : declaration.Scoped := by
  have sound := Reader.readLines_sound ⟨scoped_empty, by simp [Reader.start]⟩
    (readLines_of_readDeclaration read)
  exact sound.scope

end Source

inductive DeclarationError.OfAssignments : DeclarationError → Prop
  | duplicateAssignment (name : String) : OfAssignments (.duplicateAssignment name)
  | emptyExpression (name : String) : OfAssignments (.emptyExpression name)
  | unassignedOutput (name : String) : OfAssignments (.unassignedOutput name)
  | combinationalLoop (targets : List Target) : OfAssignments (.combinationalLoop targets)

namespace Header

variable {header : Header}

theorem Covers.checkAssignment_error {assignment : Assignment} (covers : header.Covers assignment)
    {earlier : List Target} {cause : DeclarationError}
    (refused : header.checkAssignment earlier assignment = .error cause) :
    cause.OfAssignments := by
  have operands := (header.firstUndeclared?_eq_none_iff assignment.operands).mpr
    fun signal read => covers.operands signal ((assignment.mem_operands_iff signal).mp read)
  simp only [checkAssignment, operands] at refused
  split at refused
  · rename_i unnamed
    exact absurd covers.target (not_declares_of_signalName? unnamed)
  · rename_i name _
    split at refused
    · cases refused
      exact .duplicateAssignment name
    · split at refused
      · cases refused
        exact .emptyExpression name
      · cases refused

theorem checkAssignments_error {assignments : List Assignment}
    (covers : ∀ assignment ∈ assignments, header.Covers assignment) {earlier : List Target}
    {cause : DeclarationError}
    (refused : header.checkAssignments earlier assignments = .error cause) :
    cause.OfAssignments := by
  induction assignments generalizing earlier with
  | nil => cases refused
  | cons assignment rest ih =>
      simp only [checkAssignments, bind, Except.bind] at refused
      split at refused
      · rename_i failed
        cases refused
        exact (covers assignment (by simp)).checkAssignment_error failed
      · exact ih (fun other member => covers other (List.mem_cons_of_mem _ member)) refused

end Header

theorem Header.Tidy.check {header : Header} (tidy : header.Tidy) : header.check = .ok () :=
  header.check_eq_ok_iff.mpr ⟨tidy.clocked, tidy.ports_distinct, tidy.flipflops_distinct⟩

theorem Declaration.Scoped.resolve_error {declaration : Declaration} (scope : declaration.Scoped)
    {cause : DeclarationError} (refused : declaration.resolve = .error cause) :
    cause.OfAssignments := by
  simp only [resolve, check, scope.tidy.check, bind, Except.bind] at refused
  cases checked : declaration.toHeader.checkAssignments [] declaration.assignments with
  | error found =>
      simp only [checked] at refused
      cases refused
      exact Header.checkAssignments_error scope.covers checked
  | ok done =>
      simp only [checked] at refused
      cases unassigned : declaration.firstUnassigned? with
      | some name =>
          simp only [unassigned] at refused
          cases refused
          exact .unassignedOutput name
      | none =>
          simp only [unassigned] at refused
          split at refused
          · rename_i targets _
            cases refused
            exact .combinationalLoop targets
          · cases refused

namespace Source

theorem readNetlist_eq_refused {text : String} {declaration : Declaration}
    {cause : DeclarationError} (read : readDeclaration text = .ok declaration)
    (refused : declaration.resolve = .error cause) :
    readNetlist text = .error (.refused cause) := by
  simp only [readNetlist, read, bind, Except.bind, refused]
  rfl

/-- What is read names its ports, tells them and its flip-flops apart, has a clock for these, and
mentions nothing that it does not declare. What resolving can still find wrong with it is a target
driven twice, an empty expression, an output that nothing drives, or a loop. -/
theorem readDeclaration_scoped (text : String) :
    (∀ declaration, readDeclaration text = .ok declaration → declaration.Scoped) ∧
      ∀ cause, readNetlist text = .error (.refused cause) → cause.OfAssignments := by
  refine ⟨fun declaration read => scoped_of_readDeclaration read, ?_⟩
  intro cause refused
  simp only [readNetlist, bind, Except.bind] at refused
  split at refused
  · rename_i failure failed
    cases refused
    exact absurd failed readDeclaration_ne_refused
  · rename_i declaration read
    split at refused
    · rename_i found resolved
      cases refused
      exact (scoped_of_readDeclaration read).resolve_error resolved
    · cases refused

def relay : String :=
  "// The first part\nmodule First (\n  clk\n  input a,\n  input b\n  output x,\n);\n" ++
    "assign x = (a AND FF3)\n  // The second part\nendmodule\n" ++
    "module Second (\n  output y\n);\nFF3 = x OR b\nendmodule\n"

def relayed : Declaration where
  name := "Second"
  clocked := true
  inputs := ["a", "b"]
  flipflops := [3]
  outputs := ["x", "y"]
  assignments := [
    ⟨.output 0, [.signal (.input 0), .signal (.flipflop 0), .gate (.binary .and)]⟩,
    ⟨.flipflop 0, [.signal (.output 0), .signal (.input 1), .gate (.binary .or)]⟩]

theorem readDeclaration_scoped_relay :
    readDeclaration relay = .ok relayed ∧ relayed.Scoped ∧
      readNetlist relay = .error (.refused (.unassignedOutput "y")) ∧
      DeclarationError.OfAssignments (.unassignedOutput "y") := by
  have read : readDeclaration relay = .ok relayed := by decide +kernel
  obtain ⟨scope, kind⟩ := readDeclaration_scoped relay
  have unassigned : relayed.resolve = .error (.unassignedOutput "y") := by
    rw [Declaration.resolve, Declaration.check, (scope relayed read).tidy.check]
    rfl
  have refused := readNetlist_eq_refused read unassigned
  exact ⟨read, scope relayed read, refused, kind _ refused⟩

end Source

end GateLevel
