import GateLevel.Graph.Cone

/-! Structural analysis of a netlist: extremal paths and logic cones. -/

namespace GateLevel

structure Analysis where
  size : Nat
  extremes : Extremes
  cones : Cones
  deriving DecidableEq, Repr

inductive AnalysisError
  | evaluation (cause : EvalError)
  | walk (cause : WalkFault)
  deriving DecidableEq, Repr

namespace AnalysisError

def message : AnalysisError → String
  | evaluation cause => cause.message
  | walk .outOfRange => "the graph lacks a node"
  | walk .endless => "the graph has a cycle"

end AnalysisError

namespace Netlist

def graphTick (netlist : Netlist) : Tick Arena NodeId :=
  let (inputs, arena) := Arena.empty.leaves .input netlist.inputs.length
  GraphCircuit.tick inputs (netlist.graphCircuit arena)

end Netlist

namespace Circuit

def roots (circuit : GraphCircuit) : Roots := ⟨circuit.context, circuit.outputs, circuit.state⟩

end Circuit

namespace Walker

def walkAll (roots : Roots) (outputs : List Nat) : Except WalkFault Walker :=
  outputs.foldlM (fun walker index => walker.walkOutput roots index) start

end Walker

namespace Netlist

def analyze (netlist : Netlist) : Except AnalysisError Analysis :=
  let tick := netlist.graphTick
  match tick.result with
  | .error cause => .error (.evaluation cause)
  | .ok () =>
    match Walker.walkAll tick.circuit.roots (List.range netlist.outputs.length) with
    | .error cause => .error (.walk cause)
    | .ok walker => .ok ⟨tick.circuit.context.size, walker.extremes, walker.cones⟩

end Netlist

namespace Analysis

def cone (analysis : Analysis) (target : Target) : Cone := analysis.cones.cone target

def coneText? (analysis : Analysis) (header : Header) (index : Nat) : Option String := do
  let name ← header.signalName? (.output index)
  let inputs ← (analysis.cone (.output index)).inputs.mapM fun input =>
    header.signalName? (.input input)
  return s!"Logic cone for {name}:\n" ++
    String.join (inputs.map fun input => s!"  - {input}\n")

def report? (analysis : Analysis) (header : Header) : Option String := do
  let shortest ← header.pathText? analysis.extremes.shortest
  let longest ← header.pathText? analysis.extremes.longest
  let cones ← (List.range header.outputs.length).mapM (analysis.coneText? header)
  return s!"Shortest path: {shortest}\nLongest path: {longest}\n" ++ String.join cones

def record (analysis : Analysis) : LogRecord :=
  let longest := analysis.extremes.longest.length
  let shortest := analysis.extremes.shortest.length
  ⟨.debug,
    s!"analyzed {analysis.size} graph nodes, longest path {longest}, shortest path {shortest}"⟩

end Analysis

namespace Netlist

def analysisLog (netlist : Netlist) : List LogRecord :=
  netlist.toHeader.evaluationLog netlist.graphTick.begun ++
    match netlist.analyze with
    | .ok analysis => [analysis.record]
    | .error _ => []

end Netlist

end GateLevel
