import GateLevel.Proofs.Worklist
import GateLevel.Source.Reader
import Mathlib.Data.List.Basic

/-! Resolving by look-ups that could fail: bounds are checked first, and a name is looked up only
where an error has to carry it. No look-up misses, and the answer is that of resolving. -/

namespace GateLevel

section

variable {ε α β : Type}

def answered (answer : Except ε α) : ExceptT ε Option α := ExceptT.mk (some answer)

theorem answered_bind {answer : Except ε α} {next : α → ExceptT ε Option β} {later : α → Except ε β}
    (agree : ∀ value, answer = .ok value → next value = answered (later value)) :
    (answered answer >>= next) = answered (answer >>= later) := by
  cases answer with
  | error error => rfl
  | ok value => exact agree value rfl

def lookUp (value : Option α) : ExceptT ε Option α := ExceptT.lift value

theorem lookUp_some_bind (value : α) (next : α → ExceptT ε Option β) :
    (lookUp (some value) >>= next) = next value := rfl

end

namespace Header

instance (header : Header) : DecidablePred header.Declares
  | .input index => inferInstanceAs (Decidable (index < header.inputs.length))
  | .output index => inferInstanceAs (Decidable (index < header.outputs.length))
  | .flipflop index => inferInstanceAs (Decidable (index < header.flipflops.length))

def refuse (header : Header) (error : String → DeclarationError) (signal : Signal) :
    ExceptT DeclarationError Option Unit := do
  throw (error (← lookUp (header.signalName? signal)))

def checkAssignmentByLookup (header : Header) (earlier : List Target) (assignment : Assignment) :
    ExceptT DeclarationError Option Unit :=
  if header.Declares assignment.target.signal then
    if earlier.contains assignment.target then
      header.refuse .duplicateAssignment assignment.target.signal
    else if assignment.expression.isEmpty then
      header.refuse .emptyExpression assignment.target.signal
    else
      match assignment.operands.find? fun signal => ¬ header.Declares signal with
      | some signal => throw (.unknownReference signal)
      | none => pure ()
  else throw (.unknownReference assignment.target.signal)

def checkAssignmentsByLookup (header : Header) :
    List Target → List Assignment → ExceptT DeclarationError Option Unit
  | _, [] => pure ()
  | earlier, assignment :: rest => do
    header.checkAssignmentByLookup earlier assignment
    header.checkAssignmentsByLookup (assignment.target :: earlier) rest

variable {header : Header}

theorem refuse_eq {signal : Signal} {name : String} (named : header.signalName? signal = some name)
    (error : String → DeclarationError) :
    header.refuse error signal = answered (.error (error name)) := by
  rw [refuse, named]
  rfl

theorem firstUndeclared?_eq (operands : List Signal) :
    header.firstUndeclared? operands =
      operands.find? fun signal => ¬ header.Declares signal := by
  refine congrArg (operands.find? ·) (funext fun signal => ?_)
  rw [Bool.eq_iff_iff, decide_eq_true_iff, ← header.signalName?_isSome_iff signal]
  simp

theorem checkAssignmentByLookup_eq (earlier : List Target) (assignment : Assignment) :
    header.checkAssignmentByLookup earlier assignment =
      answered (header.checkAssignment earlier assignment) := by
  simp only [checkAssignmentByLookup, checkAssignment, firstUndeclared?_eq]
  cases named : header.signalName? assignment.target.signal with
  | none =>
      have undeclared : ¬ header.Declares assignment.target.signal := by
        rw [← signalName?_isSome_iff, named]
        exact Bool.false_ne_true
      rw [if_neg undeclared]
      rfl
  | some name =>
      have declared : header.Declares assignment.target.signal := by
        rw [← signalName?_isSome_iff, named]
        rfl
      rw [if_pos declared, refuse_eq named, refuse_eq named]
      dsimp only
      split
      · rfl
      · split
        · rfl
        · cases assignment.operands.find? fun signal => ¬ header.Declares signal <;> rfl

theorem checkAssignmentsByLookup_eq (earlier : List Target) (assignments : List Assignment) :
    header.checkAssignmentsByLookup earlier assignments =
      answered (header.checkAssignments earlier assignments) := by
  induction assignments generalizing earlier with
  | nil => rfl
  | cons assignment rest ih =>
      rw [checkAssignmentsByLookup, checkAssignmentByLookup_eq, checkAssignments]
      exact answered_bind fun _ _ => ih _

end Header

namespace Declaration

def checkDrivenByLookup (declaration : Declaration) : ExceptT DeclarationError Option Unit :=
  match (List.range declaration.outputs.length).find? fun index =>
      !declaration.drives (.output index) with
  | some index => declaration.refuse .unassignedOutput (.output index)
  | none => pure ()

def resolveByLookup (declaration : Declaration) : ExceptT DeclarationError Option Netlist := do
  answered declaration.toHeader.check
  declaration.checkAssignmentsByLookup [] declaration.assignments
  declaration.checkDrivenByLookup
  match ← lookUp (Worklist.schedule declaration.inputs.length declaration.flipflops.length
      declaration.assignments) with
  | .error targets => throw (.combinationalLoop targets)
  | .ok assignments => return ⟨declaration.toHeader, assignments⟩

variable {declaration : Declaration}

theorem find?_range_eq (undriven : Nat → Bool) (names : List String) :
    (List.range names.length).find? undriven =
      (names.zipIdx.find? fun entry => undriven entry.2).map (·.2) := by
  rw [List.range_eq_range', ← List.zipIdx_map_snd 0 names, List.find?_map]
  rfl

theorem checkDrivenByLookup_eq :
    declaration.checkDrivenByLookup =
      answered (match declaration.firstUnassigned? with
        | some name => .error (.unassignedOutput name)
        | none => .ok ()) := by
  rw [checkDrivenByLookup, firstUnassigned?, find?_range_eq]
  cases undriven : declaration.outputs.zipIdx.find? fun entry =>
      !declaration.drives (.output entry.2) with
  | none => rfl
  | some entry =>
      obtain ⟨name, index⟩ := entry
      have named : declaration.signalName? (.output index) = some name :=
        List.mk_mem_zipIdx_iff_getElem?.mp (List.mem_of_find?_eq_some undriven)
      exact Header.refuse_eq named .unassignedOutput

theorem resolveByLookup_eq (declaration : Declaration) :
    declaration.resolveByLookup = answered declaration.resolve := by
  have checked : declaration.resolve =
      declaration.toHeader.check >>= fun _ =>
        declaration.checkAssignments [] declaration.assignments >>= fun _ =>
          (match declaration.firstUnassigned? with
            | some name => .error (.unassignedOutput name)
            | none => .ok ()) >>= fun _ =>
              match declaration.schedule.result with
              | .error targets => .error (.combinationalLoop targets)
              | .ok assignments => .ok ⟨declaration.toHeader, assignments⟩ := by
    rw [resolve, check]
    cases declaration.toHeader.check with
    | error cause => rfl
    | ok done =>
        cases declaration.checkAssignments [] declaration.assignments with
        | error cause => rfl
        | ok done => rfl
  rw [checked, resolveByLookup, Header.checkAssignmentsByLookup_eq, checkDrivenByLookup_eq,
    Worklist.schedule_eq]
  refine answered_bind fun _ _ => answered_bind fun _ _ => answered_bind fun _ _ => ?_
  rw [lookUp_some_bind, schedule]
  split <;> simp_all <;> rfl

end Declaration

namespace Source

def readNetlistByLookup (text : String) : ExceptT ReadError Option Netlist := do
  let declaration ← answered (readDeclaration text)
  declaration.resolveByLookup.adapt .refused

theorem readNetlistByLookup_eq (text : String) :
    readNetlistByLookup text = answered (readNetlist text) := by
  refine answered_bind fun declaration _ => ?_
  rw [Declaration.resolveByLookup_eq]
  cases declaration.resolve <;> rfl

end Source

end GateLevel
