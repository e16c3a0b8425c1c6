import GateLevel.Netlist
import GateLevel.Proofs.Order
import Mathlib.Logic.Relation
import Mathlib.Order.WellFounded
import Mathlib.Data.Fintype.Order

/-! Resolving accepts exactly the well-formed declarations without combinational loops, and
names the targets that wait for a loop in the others. -/

namespace GateLevel

open Relation

theorem Assignment.mem_operands_iff (assignment : Assignment) (signal : Signal) :
    signal ∈ assignment.operands ↔ Token.signal signal ∈ assignment.expression := by
  simp only [Assignment.operands, List.mem_filterMap]
  constructor
  · rintro ⟨token, member, found⟩
    cases token with
    | gate kind => simp [Token.signal?] at found
    | signal source =>
        rw [← Option.some.inj found]
        exact member
  · intro member
    exact ⟨.signal signal, member, rfl⟩

def OutputReads (assignments : List Assignment) (reader read : Nat) : Prop :=
  ∃ assignment ∈ assignments, assignment.target = .output reader ∧
    .output read ∈ assignment.operands

instance (assignments : List Assignment) (reader read : Nat) :
    Decidable (OutputReads assignments reader read) :=
  inferInstanceAs (Decidable (∃ assignment ∈ assignments, assignment.target = .output reader ∧
    .output read ∈ assignment.operands))

/-- The output lies on a cycle of outputs that read one another, or reads one that does. -/
def ReachesLoop (assignments : List Assignment) (index : Nat) : Prop :=
  ∃ looped, ReflTransGen (OutputReads assignments) index looped ∧
    TransGen (OutputReads assignments) looped looped

def Assignment.AwaitsLoop (assignments : List Assignment) (assignment : Assignment) : Prop :=
  ∃ index, .output index ∈ assignment.operands ∧ ReachesLoop assignments index

theorem reachesLoop_of_reads {assignments : List Assignment} {reader read : Nat}
    (reads : OutputReads assignments reader read) (reaches : ReachesLoop assignments read) :
    ReachesLoop assignments reader := by
  obtain ⟨looped, path, loop⟩ := reaches
  exact ⟨looped, .head reads path, loop⟩

theorem exists_reads_of_reachesLoop {assignments : List Assignment} {reader : Nat}
    (reaches : ReachesLoop assignments reader) :
    ∃ read, OutputReads assignments reader read ∧ ReachesLoop assignments read := by
  obtain ⟨looped, path, loop⟩ := reaches
  rcases path.cases_head with rfl | ⟨read, reads, rest⟩
  · obtain ⟨read, reads, rest⟩ := TransGen.head'_iff.mp loop
    exact ⟨read, reads, reader, rest, loop⟩
  · exact ⟨read, reads, looped, rest, loop⟩

theorem firstRepeated?_eq_none_iff {α : Type} [BEq α] [LawfulBEq α] (seen list : List α) :
    firstRepeated? seen list = none ↔ list.Nodup ∧ ∀ x ∈ list, x ∉ seen := by
  induction list generalizing seen with
  | nil => simp [firstRepeated?]
  | cons x rest ih =>
      simp only [firstRepeated?, List.contains_iff_mem]
      by_cases repeated : x ∈ seen
      · simp [repeated]
      · simp only [repeated, if_false, ih, List.nodup_cons, List.mem_cons]
        grind

namespace Header

theorem check_eq_ok_iff (header : Header) :
    header.check = .ok () ↔ (header.clocked = true ∨ header.flipflops = []) ∧
      (header.inputs ++ header.outputs).Nodup ∧ header.flipflops.Nodup := by
  have ports := firstRepeated?_eq_none_iff [] (header.inputs ++ header.outputs)
  have numbers := firstRepeated?_eq_none_iff [] header.flipflops
  simp only [List.not_mem_nil, not_false_eq_true, implies_true, and_true] at ports numbers
  rw [← ports, ← numbers]
  simp only [check]
  by_cases unclocked : (!header.clocked && !header.flipflops.isEmpty) = true
  · simp only [unclocked, if_true, reduceCtorEq, false_iff]
    simp only [Bool.and_eq_true, Bool.not_eq_true', List.isEmpty_eq_false_iff] at unclocked
    rintro ⟨clocked | empty, _⟩
    · simp [unclocked.1] at clocked
    · exact unclocked.2 empty
  · have clocked : header.clocked = true ∨ header.flipflops = [] := by
      cases given : header.clocked <;> simp_all
    simp only [unclocked, clocked, true_and]
    cases firstRepeated? [] (header.inputs ++ header.outputs) <;>
      cases firstRepeated? [] header.flipflops <;> simp

theorem declares_of_signalName? {header : Header} {signal : Signal} {name : String}
    (named : header.signalName? signal = some name) : header.Declares signal := by
  rw [← signalName?_isSome_iff, named]
  rfl

theorem not_declares_of_signalName? {header : Header} {signal : Signal}
    (unnamed : header.signalName? signal = none) : ¬ header.Declares signal := by
  rw [← signalName?_isSome_iff, unnamed]
  simp

theorem firstUndeclared?_eq_none_iff (header : Header) (operands : List Signal) :
    header.firstUndeclared? operands = none ↔ ∀ signal ∈ operands, header.Declares signal := by
  simp only [firstUndeclared?, List.find?_eq_none, Option.isNone_iff_eq_none]
  refine forall₂_congr fun signal _ => ?_
  rw [← signalName?_isSome_iff, Option.isSome_iff_ne_none]

structure Fits (header : Header) (assignment : Assignment) : Prop where
  target : header.Declares assignment.target.signal
  nonempty : assignment.expression ≠ []
  operands : ∀ signal ∈ assignment.operands, header.Declares signal

theorem checkAssignment_eq_ok_iff (header : Header) (earlier : List Target)
    (assignment : Assignment) :
    header.checkAssignment earlier assignment = .ok () ↔
      header.Fits assignment ∧ assignment.target ∉ earlier := by
  simp only [checkAssignment]
  cases named : header.signalName? assignment.target.signal with
  | none =>
      have undeclared := not_declares_of_signalName? named
      simp only [reduceCtorEq, false_iff]
      rintro ⟨fits, _⟩
      exact undeclared fits.target
  | some name =>
      have declared := declares_of_signalName? named
      have operands := header.firstUndeclared?_eq_none_iff assignment.operands
      simp only [List.contains_iff_mem, List.isEmpty_iff]
      by_cases repeated : assignment.target ∈ earlier
      · simp [repeated]
      · by_cases empty : assignment.expression = []
        · simp only [repeated, if_false, empty, if_true, reduceCtorEq, false_iff]
          rintro ⟨fits, _⟩
          exact fits.nonempty empty
        · simp only [repeated, if_false, empty, not_false_eq_true, and_true]
          cases found : header.firstUndeclared? assignment.operands with
          | none =>
              simp only [true_iff]
              exact ⟨declared, empty, operands.mp found⟩
          | some signal =>
              simp only [reduceCtorEq, false_iff]
              intro fits
              simp [operands.mpr fits.operands] at found

theorem checkAssignments_eq_ok_iff (header : Header) (earlier : List Target)
    (assignments : List Assignment) :
    header.checkAssignments earlier assignments = .ok () ↔
      (∀ assignment ∈ assignments, header.Fits assignment) ∧
        (assignments.map (·.target)).Nodup ∧
        ∀ assignment ∈ assignments, assignment.target ∉ earlier := by
  induction assignments generalizing earlier with
  | nil => simp [checkAssignments]
  | cons assignment rest ih =>
      have first := header.checkAssignment_eq_ok_iff earlier assignment
      have later := ih (assignment.target :: earlier)
      simp only [checkAssignments]
      cases checked : header.checkAssignment earlier assignment with
      | error error =>
          simp only [checked, reduceCtorEq, false_iff] at first
          simp only [bind, Except.bind, reduceCtorEq, false_iff]
          rintro ⟨fits, _, fresh⟩
          exact first ⟨fits assignment (by simp), fresh assignment (by simp)⟩
      | ok value =>
          have passed := first.mp checked
          simp only [bind, Except.bind, later, List.mem_cons, List.map_cons, List.nodup_cons,
            List.mem_map]
          grind

end Header

namespace Declaration

/-- Everything that is asked of a declaration, apart from the absence of loops. -/
structure WellFormed (declaration : Declaration) : Prop where
  clocked : declaration.clocked = true ∨ declaration.flipflops = []
  ports_distinct : (declaration.inputs ++ declaration.outputs).Nodup
  flipflops_distinct : declaration.flipflops.Nodup
  targets_declared : ∀ assignment ∈ declaration.assignments,
    declaration.Declares assignment.target.signal
  operands_declared : ∀ assignment ∈ declaration.assignments, ∀ signal,
    Token.signal signal ∈ assignment.expression → declaration.Declares signal
  targets_distinct : (declaration.assignments.map (·.target)).Nodup
  expressions_nonempty : ∀ assignment ∈ declaration.assignments, assignment.expression ≠ []
  outputs_assigned : ∀ index < declaration.outputs.length,
    ∃ assignment ∈ declaration.assignments, assignment.target = .output index

def Acyclic (declaration : Declaration) : Prop :=
  ∀ index, ¬ TransGen (OutputReads declaration.assignments) index index

theorem firstUnassigned?_eq_none_iff (declaration : Declaration) :
    declaration.firstUnassigned? = none ↔ ∀ index < declaration.outputs.length,
      ∃ assignment ∈ declaration.assignments, assignment.target = .output index := by
  simp only [firstUnassigned?, Option.map_eq_none_iff, List.find?_eq_none, Bool.not_eq_true',
    Bool.not_eq_false, drives, List.any_eq_true, decide_eq_true_eq]
  constructor
  · intro all index bound
    exact all (declaration.outputs[index], index) (by simp [List.mem_zipIdx_iff_getElem?, bound])
  · rintro all ⟨name, index⟩ member
    have found := List.mem_zipIdx_iff_getElem?.mp member
    exact all index (List.getElem?_eq_some_iff.mp found).1

theorem check_eq_ok_iff (declaration : Declaration) :
    declaration.check = .ok () ↔ declaration.WellFormed := by
  have header := declaration.toHeader.check_eq_ok_iff
  have assignments :=
    declaration.toHeader.checkAssignments_eq_ok_iff [] declaration.assignments
  have outputs := declaration.firstUnassigned?_eq_none_iff
  constructor
  · intro checked
    simp only [check, bind, Except.bind] at checked
    split at checked
    · simp at checked
    · rename_i headerChecked
      split at checked
      · simp at checked
      · rename_i assignmentsChecked
        split at checked
        · simp at checked
        · rename_i unassigned
          obtain ⟨clocked, ports, flipflops⟩ := header.mp headerChecked
          obtain ⟨fits, targets, _⟩ := assignments.mp assignmentsChecked
          refine ⟨clocked, ports, flipflops, ?_, ?_, targets, ?_, outputs.mp unassigned⟩
          · intro assignment member
            exact (fits assignment member).target
          · intro assignment member signal mentioned
            exact (fits assignment member).operands signal
              ((assignment.mem_operands_iff signal).mpr mentioned)
          · intro assignment member
            exact (fits assignment member).nonempty
  · intro wellFormed
    have headerChecked := header.mpr
      ⟨wellFormed.clocked, wellFormed.ports_distinct, wellFormed.flipflops_distinct⟩
    have assignmentsChecked := assignments.mpr
      ⟨fun assignment member => ⟨wellFormed.targets_declared assignment member,
          wellFormed.expressions_nonempty assignment member,
          fun signal read => wellFormed.operands_declared assignment member signal
            ((assignment.mem_operands_iff signal).mp read)⟩,
        wellFormed.targets_distinct, by simp⟩
    simp only [check, bind, Except.bind, headerChecked, assignmentsChecked,
      outputs.mpr wellFormed.outputs_assigned]

theorem WellFormed.eq_of_target_eq {declaration : Declaration}
    (wellFormed : declaration.WellFormed) {first second : Assignment}
    (firstMember : first ∈ declaration.assignments)
    (secondMember : second ∈ declaration.assignments) (same : first.target = second.target) :
    first = second :=
  List.inj_on_of_nodup_map wellFormed.targets_distinct firstMember secondMember same

def IsAvailable (declaration : Declaration) (signal : Signal) : Prop :=
  Available declaration.inputs.length declaration.flipflops.length declaration.assignments signal

theorem WellFormed.not_reachesLoop {declaration : Declaration}
    (wellFormed : declaration.WellFormed) {index : Nat}
    (available : declaration.IsAvailable (.output index)) :
    ¬ ReachesLoop declaration.assignments index := by
  have general : ∀ signal, declaration.IsAvailable signal → ∀ index, signal = .output index →
      ¬ ReachesLoop declaration.assignments index := by
    intro signal available
    induction available with
    | seed seeded =>
        intro index same
        subst same
        cases seeded
    | @output assignment driven member target _ ih =>
        intro index same reaches
        obtain ⟨read, ⟨reader, readerMember, readerTarget, reads⟩, later⟩ :=
          exists_reads_of_reachesLoop reaches
        have one : reader = assignment := by
          apply wellFormed.eq_of_target_eq readerMember member
          rw [readerTarget, target, Signal.output.inj same]
        exact ih (.output read) (one ▸ reads) read rfl later
  exact general _ available index rfl

theorem wellFounded_reads (declaration : Declaration) :
    WellFounded fun read reader : { index : Fin declaration.outputs.length //
        ¬ ReachesLoop declaration.assignments index } =>
      TransGen (OutputReads declaration.assignments) reader.1 read.1 := by
  -- Among finitely many outputs, reading without end would come back to one of them.
  have : IsTrans { index : Fin declaration.outputs.length //
      ¬ ReachesLoop declaration.assignments index } fun read reader =>
        TransGen (OutputReads declaration.assignments) reader.1 read.1 :=
    ⟨fun _ _ _ first second => second.trans first⟩
  have : Std.Irrefl fun read reader : { index : Fin declaration.outputs.length //
      ¬ ReachesLoop declaration.assignments index } =>
        TransGen (OutputReads declaration.assignments) reader.1 read.1 :=
    ⟨fun index loop => index.2 ⟨index.1, .refl, loop⟩⟩
  exact Finite.wellFounded_of_trans_of_irrefl _

theorem WellFormed.available_of_not_reachesLoop {declaration : Declaration}
    (wellFormed : declaration.WellFormed) {index : Nat}
    (bound : index < declaration.outputs.length)
    (free : ¬ ReachesLoop declaration.assignments index) :
    declaration.IsAvailable (.output index) := by
  have general := declaration.wellFounded_reads.induction
    (C := fun reader => declaration.IsAvailable (.output reader.1)) ⟨⟨index, bound⟩, free⟩
  apply general
  rintro ⟨⟨reader, readerBound⟩, readerFree⟩ ih
  obtain ⟨assignment, member, target⟩ := wellFormed.outputs_assigned reader readerBound
  refine .output member target ?_
  intro operand read
  have declared := wellFormed.operands_declared assignment member operand
    ((assignment.mem_operands_iff operand).mp read)
  cases operand with
  | input index => exact .seed (.input declared)
  | flipflop index => exact .seed (.flipflop declared)
  | output index =>
      have reads : OutputReads declaration.assignments reader index :=
        ⟨assignment, member, target, read⟩
      have operandFree : ¬ ReachesLoop declaration.assignments index :=
        fun reaches => readerFree (reachesLoop_of_reads reads reaches)
      exact ih ⟨⟨index, declared⟩, operandFree⟩ (.single reads)

theorem WellFormed.placeable_iff {declaration : Declaration}
    (wellFormed : declaration.WellFormed) {assignment : Assignment}
    (member : assignment ∈ declaration.assignments) :
    Placeable declaration.inputs.length declaration.flipflops.length declaration.assignments
      assignment ↔ ¬ assignment.AwaitsLoop declaration.assignments := by
  constructor
  · rintro placeable ⟨index, read, reaches⟩
    exact wellFormed.not_reachesLoop (placeable (.output index) read) reaches
  · intro free operand read
    have declared := wellFormed.operands_declared assignment member operand
      ((assignment.mem_operands_iff operand).mp read)
    cases operand with
    | input index => exact .seed (.input declared)
    | flipflop index => exact .seed (.flipflop declared)
    | output index =>
        exact wellFormed.available_of_not_reachesLoop declared
          fun reaches => free ⟨index, read, reaches⟩

open Classical in
theorem WellFormed.schedule_stuck {declaration : Declaration}
    (wellFormed : declaration.WellFormed) :
    declaration.schedule.stuck =
      declaration.assignments.filter (·.AwaitsLoop declaration.assignments) := by
  rw [schedule, Schedule.plan_stuck]
  apply List.filter_congr
  intro assignment member
  simp [wellFormed.placeable_iff member]

theorem acyclic_iff (declaration : Declaration) :
    declaration.Acyclic ↔ ∀ assignment ∈ declaration.assignments,
      ¬ assignment.AwaitsLoop declaration.assignments := by
  constructor
  · rintro acyclic assignment _ ⟨_, _, looped, _, loop⟩
    exact acyclic looped loop
  · intro free index loop
    obtain ⟨read, ⟨assignment, member, _, mentioned⟩, rest⟩ := TransGen.head'_iff.mp loop
    exact free assignment member ⟨read, mentioned, index, rest, loop⟩

theorem resolve_of_wellFormed {declaration : Declaration}
    (wellFormed : declaration.WellFormed) :
    declaration.resolve =
      if declaration.schedule.stuck = [] then
        .ok ⟨declaration.toHeader, declaration.schedule.placed⟩
      else .error (.combinationalLoop (declaration.schedule.stuck.map (·.target))) := by
  simp only [resolve, declaration.check_eq_ok_iff.mpr wellFormed, bind, Except.bind,
    Schedule.result, List.isEmpty_iff]
  by_cases placed : declaration.schedule.stuck = []
  · simp [placed]
  · simp [placed]

theorem WellFormed.exists_resolve_iff {declaration : Declaration}
    (wellFormed : declaration.WellFormed) :
    (∃ netlist, declaration.resolve = .ok netlist) ↔ declaration.Acyclic := by
  have stuck_iff : declaration.schedule.stuck = [] ↔ declaration.Acyclic := by
    rw [wellFormed.schedule_stuck, acyclic_iff, List.filter_eq_nil_iff]
    simp
  rw [resolve_of_wellFormed wellFormed, ← stuck_iff]
  split
  · rename_i placed
    simp [placed]
  · rename_i stuck
    simp [stuck]

theorem wellFormed_of_resolve {declaration : Declaration} {netlist : Netlist}
    (resolved : declaration.resolve = .ok netlist) : declaration.WellFormed := by
  rw [← check_eq_ok_iff]
  simp only [resolve, bind, Except.bind] at resolved
  split at resolved
  · simp at resolved
  · assumption

open Classical in
/-- A declaration is accepted exactly if it is well-formed and its outputs do not read one
another in a circle. Where only the latter fails, the error lists in the given order the targets
whose expressions read an output on such a circle, directly or through other outputs. -/
theorem resolve_accepts_iff (declaration : Declaration) :
    ((∃ netlist, declaration.resolve = .ok netlist) ↔
        declaration.WellFormed ∧ declaration.Acyclic) ∧
      (declaration.WellFormed → ¬ declaration.Acyclic →
        declaration.resolve = .error (.combinationalLoop
          ((declaration.assignments.filter (·.AwaitsLoop declaration.assignments)).map
            (·.target)))) := by
  have stuck_iff (wellFormed : declaration.WellFormed) :
      declaration.schedule.stuck = [] ↔ declaration.Acyclic := by
    rw [wellFormed.schedule_stuck, acyclic_iff, List.filter_eq_nil_iff]
    simp
  refine ⟨⟨?_, ?_⟩, ?_⟩
  · rintro ⟨netlist, resolved⟩
    have wellFormed := wellFormed_of_resolve resolved
    refine ⟨wellFormed, (stuck_iff wellFormed).mp ?_⟩
    by_contra stuck
    simp [resolve_of_wellFormed wellFormed, stuck] at resolved
  · rintro ⟨wellFormed, acyclic⟩
    rw [resolve_of_wellFormed wellFormed, if_pos ((stuck_iff wellFormed).mpr acyclic)]
    exact ⟨_, rfl⟩
  · intro wellFormed cyclic
    have stuck : declaration.schedule.stuck ≠ [] :=
      fun none => cyclic ((stuck_iff wellFormed).mp none)
    rw [resolve_of_wellFormed wellFormed, if_neg stuck, wellFormed.schedule_stuck]

def crossed : Declaration where
  name := "Crossed"
  clocked := true
  inputs := ["A"]
  flipflops := [0]
  outputs := ["X", "Y", "Z", "W"]
  assignments := [
    ⟨.flipflop 0, [.signal (.output 2), .gate .not]⟩,
    ⟨.output 3, [.signal (.input 0), .signal (.flipflop 0), .gate (.binary .and)]⟩,
    ⟨.output 0, [.signal (.output 1)]⟩,
    ⟨.output 1, [.signal (.output 0), .signal (.input 0), .gate (.binary .or)]⟩,
    ⟨.output 2, [.signal (.output 1), .gate .not]⟩]

open Classical in
theorem resolve_accepts_iff_crossed :
    crossed.WellFormed ∧ ¬ crossed.Acyclic ∧
      (crossed.assignments.filter (·.AwaitsLoop crossed.assignments)).map (·.target) =
        [.flipflop 0, .output 0, .output 1, .output 2] := by
  have wellFormed : crossed.WellFormed := crossed.check_eq_ok_iff.mp (by decide)
  have forward : OutputReads crossed.assignments 0 1 := by decide
  have backward : OutputReads crossed.assignments 1 0 := by decide
  have cyclic : ¬ crossed.Acyclic := fun acyclic => acyclic 0 (.head forward (.single backward))
  have refused := crossed.resolve_accepts_iff.2 wellFormed cyclic
  have named : crossed.resolve = .error (.combinationalLoop
      [.flipflop 0, .output 0, .output 1, .output 2]) := by decide +kernel
  rw [named, Except.error.injEq, DeclarationError.combinationalLoop.injEq] at refused
  exact ⟨wellFormed, cyclic, refused.symm⟩

end Declaration

end GateLevel
