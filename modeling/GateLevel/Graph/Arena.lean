import GateLevel.Circuit

/-! Expression graphs in which equal nodes are shared, and circuits that build them. -/

namespace GateLevel

abbrev NodeId := Nat

/-- A node of a graph. The children of a gate are its operands, the one written last first. -/
structure Node where
  token : Token
  children : List NodeId
  deriving DecidableEq, Repr

namespace Node

def leaf (signal : Signal) : Node := ⟨.signal signal, []⟩

end Node

structure Arena where
  nodes : Array Node
  deriving DecidableEq, Repr

namespace Arena

def empty : Arena := ⟨#[]⟩

def size (arena : Arena) : Nat := arena.nodes.size

def node? (arena : Arena) (id : NodeId) : Option Node := arena.nodes[id]?

def allocate (node : Node) (arena : Arena) : NodeId × Arena :=
  match arena.nodes.toList.idxOf? node with
  | some id => (id, arena)
  | none => (arena.size, ⟨arena.nodes.push node⟩)

def allocateAll : List Node → Arena → List NodeId × Arena
  | [], arena => ([], arena)
  | node :: rest, arena =>
    let (id, arena) := arena.allocate node
    let (ids, arena) := allocateAll rest arena
    (id :: ids, arena)

def leaves (signal : Nat → Signal) (count : Nat) (arena : Arena) : List NodeId × Arena :=
  arena.allocateAll ((List.range count).map fun index => .leaf (signal index))

end Arena

def Interpretation.graph : Interpretation Arena NodeId where
  invert operand arena := arena.allocate ⟨.gate .not, [operand]⟩
  combine gate last first arena := arena.allocate ⟨.gate (.binary gate), [last, first]⟩

abbrev GraphCircuit := Circuit Arena NodeId

namespace Netlist

/-- A circuit over nodes of an arena: before the first tick flip-flops are leaves, and outputs
are leaves that hold their place. -/
def graphCircuit (netlist : Netlist) (arena : Arena) : GraphCircuit :=
  let (state, arena) := arena.leaves .flipflop netlist.flipflops.length
  let (outputs, arena) := arena.leaves .output netlist.outputs.length
  { netlist, context := arena, state, outputs }

end Netlist

namespace GraphCircuit

def tick (inputs : List NodeId) (circuit : GraphCircuit) : Tick Arena NodeId :=
  Circuit.tick .graph inputs circuit

def debugText (circuit : GraphCircuit) : String :=
  Circuit.debugText (fun id => s!"NodeId({id})") circuit

end GraphCircuit

end GateLevel
