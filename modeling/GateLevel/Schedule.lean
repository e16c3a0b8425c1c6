import GateLevel.Declaration

/-! Puts assignments into an order in which every output is driven before it is read. -/

namespace GateLevel

structure Waiting where
  assignment : Assignment
  missing : List Signal

namespace Waiting

def start (assignment : Assignment) : Waiting := ⟨assignment, assignment.operands⟩

def release (source : Signal) (entry : Waiting) : Waiting :=
  { entry with missing := entry.missing.filter (· ≠ source) }

def isReady (entry : Waiting) : Bool := entry.missing.isEmpty

end Waiting

structure Schedule where
  placed : List Assignment
  stuck : List Assignment
  deriving DecidableEq, Repr

namespace Schedule

/-- Outputs that have been placed become available; the latest one is used first. A flip-flop
shows its new value only after the tick, so it does not become available by being placed. -/
def announce : List Waiting → List Signal → List Signal
  | [], ready => ready
  | entry :: rest, ready =>
    match entry.assignment.target with
    | .output index => announce rest (.output index :: ready)
    | .flipflop _ => announce rest ready

theorem length_announce_le (entries : List Waiting) (ready : List Signal) :
    (announce entries ready).length ≤ ready.length + entries.length := by
  induction entries generalizing ready with
  | nil => simp [announce]
  | cons entry rest ih =>
      simp only [announce, List.length_cons]
      split
      next index _ =>
        have bound := ih (.output index :: ready)
        simp only [List.length_cons] at bound
        omega
      next =>
        have bound := ih ready
        omega

def separate (waiting : List Waiting) : List Waiting × List Waiting :=
  (waiting.filter (·.isReady), waiting.filter (!·.isReady))

theorem length_separate (waiting : List Waiting) :
    (separate waiting).1.length + (separate waiting).2.length = waiting.length := by
  induction waiting with
  | nil => rfl
  | cons entry rest ih =>
      simp only [separate] at ih
      cases ready : entry.isReady <;> simp [separate, ready] <;> omega

def releaseAll (source : Signal) (waiting : List Waiting) : List Waiting × List Waiting :=
  separate (waiting.map (·.release source))

theorem length_releaseAll (source : Signal) (waiting : List Waiting) :
    (releaseAll source waiting).1.length + (releaseAll source waiting).2.length =
      waiting.length := by
  simp [releaseAll, length_separate]

def drain : List Signal → List Waiting → Schedule
  | [], waiting => ⟨[], waiting.map (·.assignment)⟩
  | source :: ready, waiting =>
    let released := releaseAll source waiting
    let later := drain (announce released.1 ready) released.2
    ⟨released.1.map (·.assignment) ++ later.placed, later.stuck⟩
termination_by ready waiting => ready.length + waiting.length
decreasing_by
  have bound := length_announce_le (releaseAll source waiting).1 ready
  have total := length_releaseAll source waiting
  simp only [List.length_cons]
  omega

def sources (inputs flipflops : Nat) : List Signal :=
  ((List.range flipflops).map .flipflop).reverse ++ ((List.range inputs).map .input).reverse

/-- Assignments that read nothing are placed first, in the given order. -/
def plan (inputs flipflops : Nat) (assignments : List Assignment) : Schedule :=
  let separated := separate (assignments.map .start)
  let later := drain (announce separated.1 (sources inputs flipflops)) separated.2
  ⟨separated.1.map (·.assignment) ++ later.placed, later.stuck⟩

def result (schedule : Schedule) : Except (List Target) (List Assignment) :=
  if schedule.stuck.isEmpty then .ok schedule.placed
  else .error (schedule.stuck.map (·.target))

def log (schedule : Schedule) : List LogRecord :=
  schedule.placed.mapIdx (fun position assignment =>
    ⟨.trace, s!"scheduled {assignment.target.describe} at position {position}"⟩) ++
  if schedule.stuck.isEmpty then [⟨.debug, s!"scheduled {schedule.placed.length} assignments"⟩]
  else []

end Schedule

def combinationalLoopMessage (targets : List Target) : String :=
  "Combinational loop detected: " ++ ", ".intercalate (targets.map Target.describe)

end GateLevel
