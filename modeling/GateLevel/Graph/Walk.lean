import GateLevel.Graph.Arena

/-! Depth-first walks over a graph, in which a flip-flop stands for the root that drives it, and the
longest and the shortest path from an output to an input met on a walk. -/

namespace GateLevel

structure Roots where
  arena : Arena
  outputs : List NodeId
  flipflops : List NodeId
  deriving DecidableEq, Repr

/-- Something met on a walk that matters for the targets being walked: an input, with the
tokens that led to it, or a flip-flop that was entered before. The innermost token and the
innermost target stand first. -/
inductive Sighting
  | input (index : Nat) (trail : List Token) (under : List Target)
  | reuse (flipflop : Nat) (under : List Target)
  deriving DecidableEq, Repr

inductive WalkFault
  | outOfRange
  | endless
  deriving DecidableEq, Repr

/-- The state of a walk. The lists have their latest element first: the tokens from the root of
the walk to the present node, the targets being walked, the flip-flops entered so far, and
what has been met. -/
structure Walker where
  trail : List Token
  hierarchy : List Target
  entered : List Nat
  sightings : List Sighting
  deriving DecidableEq, Repr

namespace Walker

def start : Walker := ⟨[], [], [], []⟩

def pushToken (token : Token) (walker : Walker) : Walker :=
  { walker with trail := token :: walker.trail }

def popToken (walker : Walker) : Walker := { walker with trail := walker.trail.tail }

def pushTarget (target : Target) (walker : Walker) : Walker :=
  { walker with hierarchy := target :: walker.hierarchy }

def popTarget (walker : Walker) : Walker := { walker with hierarchy := walker.hierarchy.tail }

def enter (flipflop : Nat) (walker : Walker) : Walker :=
  { walker with entered := flipflop :: walker.entered }

def sight (sighting : Sighting) (walker : Walker) : Walker :=
  { walker with sightings := sighting :: walker.sightings }

def sightInput (index : Nat) (walker : Walker) : Walker :=
  walker.sight (.input index walker.trail walker.hierarchy)

def sightReuse (flipflop : Nat) (walker : Walker) : Walker :=
  walker.sight (.reuse flipflop walker.hierarchy)

/-- Walks the graph below a node. A flip-flop is entered at most once, which ends the walk on
feedback. `depth` bounds the length of the trail. -/
def walk (roots : Roots) : Nat → NodeId → Walker → Except WalkFault Walker
  | 0, _, _ => .error .endless
  | depth + 1, id, walker =>
    match roots.arena.node? id with
    | none => .error .outOfRange
    | some node => do
      let walker := walker.pushToken node.token
      let walker ←
        match node.token with
        | .gate _ | .signal (.output _) => pure walker
        | .signal (.input index) => pure (walker.sightInput index)
        | .signal (.flipflop index) =>
          if walker.entered.contains index then pure (walker.sightReuse index)
          else
            match roots.flipflops[index]? with
            | none => throw .outOfRange
            | some root => do
              let walker := (walker.enter index).pushTarget (.flipflop index)
              let walker ← walk roots depth root walker
              pure walker.popTarget
      let walker ← node.children.foldlM (fun walker child => walk roots depth child walker) walker
      return walker.popToken

/-- No trail is longer where children come before their parents: between two flip-flops it
meets every node at most once, and it enters every flip-flop at most once. -/
def depthBound (roots : Roots) : Nat :=
  roots.arena.size * (roots.flipflops.length + 1) + 1

def walkOutput (roots : Roots) (index : Nat) (walker : Walker) : Except WalkFault Walker :=
  match roots.outputs[index]? with
  | none => .error .outOfRange
  | some root => do
    let walker ← walk roots (depthBound roots) root (walker.pushTarget (.output index))
    return walker.popTarget

def walkOutputs (roots : Roots) : List Nat → Walker → List Walker × Option WalkFault
  | [], _ => ([], none)
  | index :: rest, walker =>
    match walker.walkOutput roots index with
    | .error fault => ([], some fault)
    | .ok walker =>
      let (later, fault) := walkOutputs roots rest walker
      (walker :: later, fault)

end Walker

structure Extremes where
  longest : List Token
  shortest : List Token
  deriving DecidableEq, Repr

namespace Extremes

def none : Extremes := ⟨[], []⟩

/-- Takes the path along a trail into account. Of paths of equal length the first one stays. -/
def record (trail : List Token) (extremes : Extremes) : Extremes where
  longest := if extremes.longest.length < trail.length then trail.reverse else extremes.longest
  shortest :=
    if extremes.shortest.isEmpty || trail.length < extremes.shortest.length then trail.reverse
    else extremes.shortest

def ofSightings : List Sighting → Extremes
  | [] => none
  | .input _ trail _ :: rest => (ofSightings rest).record trail
  | .reuse _ _ :: rest => ofSightings rest

end Extremes

namespace Walker

def extremes (walker : Walker) : Extremes := .ofSightings walker.sightings

end Walker

namespace Header

def pathText? (header : Header) (path : List Token) : Option String :=
  if path.isEmpty then some "(none)"
  else (path.mapM header.tokenName?).map (" -> ".intercalate ·)

end Header

end GateLevel
