import GateLevel.Proofs.Equations
import GateLevel.Proofs.Graph.Coverage
import GateLevel.Proofs.Graph.Leaves

/-! The graph of a netlist has below the root of every target the signals that are left when the
outputs in the expression of the target are replaced by what they stand for. -/

namespace GateLevel

def Interpretation.support : Interpretation Unit (List Signal) where
  invert operand _ := (operand, ())
  combine _ last first _ := (last ++ first, ())

namespace Interpretation

theorem flatten_operate_support {gate : Gate} {stack next : List (List Signal)} {context : Unit}
    (operated : (support.operate gate stack context).1 = .ok next) :
    next.flatten = stack.flatten := by
  cases gate with
  | not =>
      cases stack with
      | nil => simp [operate] at operated
      | cons operand rest =>
          rw [← Except.ok.inj operated]
  | binary gate =>
      rcases stack with _ | ⟨last, _ | ⟨first, rest⟩⟩
      · simp [operate] at operated
      · simp [operate] at operated
      · rw [← Except.ok.inj operated]
        simp

theorem mem_execute_support_iff {scope : Scope (List Signal)} {tokens : List Token}
    {stack final : List (List Signal)} {context : Unit}
    (executed : (support.execute scope tokens stack context).1 = .ok final) (signal : Signal) :
    signal ∈ final.flatten ↔ signal ∈ stack.flatten ∨ ∃ operand part,
      .signal operand ∈ tokens ∧ scope.read operand = .ok part ∧ signal ∈ part := by
  induction tokens generalizing stack context with
  | nil =>
      rw [← Except.ok.inj executed]
      simp
  | cons token rest ih =>
      cases token with
      | signal source =>
          simp only [execute] at executed
          cases found : scope.read source with
          | error cause => simp [found] at executed
          | ok part =>
              rw [found] at executed
              rw [ih executed, List.flatten_cons, List.mem_append]
              simp only [List.mem_cons, Token.signal.injEq]
              constructor
              · rintro ((now | before) | ⟨operand, other, mentioned, read, member⟩)
                · exact Or.inr ⟨source, part, Or.inl rfl, found, now⟩
                · exact Or.inl before
                · exact Or.inr ⟨operand, other, Or.inr mentioned, read, member⟩
              · rintro (before | ⟨operand, other, rfl | mentioned, read, member⟩)
                · exact Or.inl (Or.inr before)
                · rw [found, Except.ok.injEq] at read
                  exact Or.inl (Or.inl (read ▸ member))
                · exact Or.inr ⟨operand, other, mentioned, read, member⟩
      | gate gate =>
          simp only [execute] at executed
          split at executed
          · simp at executed
          · rename_i next later operated
            have kept := flatten_operate_support (congrArg Prod.fst operated)
            simp only [ih executed, kept, List.mem_cons, reduceCtorEq, false_or]

theorem mem_value_support_iff {inputs state outputs : List (List Signal)}
    {expression : List Token} {signals : List Signal}
    (valued : support.value inputs state outputs expression = .ok signals) (signal : Signal) :
    signal ∈ signals ↔ ∃ operand part, .signal operand ∈ expression ∧
      Scope.read ⟨inputs, state, outputs.map some⟩ operand = .ok part ∧ signal ∈ part := by
  simp only [value, evaluate] at valued
  split at valued
  · simp at valued
  · rename_i stack later executed
    rcases stack with _ | ⟨only, _ | ⟨next, rest⟩⟩
    · simp [single] at valued
    · rw [single, Except.ok.injEq] at valued
      have members := mem_execute_support_iff (congrArg Prod.fst executed) signal
      simpa [valued] using members
    · simp [single] at valued

end Interpretation

def standing : Correspondence .graph .support where
  World arena _ := arena.Closed
  Related arena _ id signals := arena.Stands id signals
  invert := by
    intro arena _ id signals closed stands
    have grown := arena.allocate_extends ⟨.gate .not, [id]⟩
    refine ⟨Arena.allocate_closed closed (by simpa using stands.bound),
      fun _ _ other => other.extend grown closed, ?_⟩
    simpa [Interpretation.graph, Interpretation.support] using
      Arena.stands_allocate_gate closed .not (.cons stands .nil)
  combine := by
    intro gate arena _ last lastSignals front frontSignals closed lastStands frontStands
    have grown := arena.allocate_extends ⟨.gate (.binary gate), [last, front]⟩
    refine ⟨Arena.allocate_closed closed (by simpa using ⟨lastStands.bound, frontStands.bound⟩),
      fun _ _ other => other.extend grown closed, ?_⟩
    simpa [Interpretation.graph, Interpretation.support] using
      Arena.stands_allocate_gate closed (.binary gate)
        (.cons lastStands (.cons frontStands .nil))

theorem standing_plants : standing.Plants () (fun _ => True) fun signal => [signal] := by
  intro arena signal closed _
  have later : (arena.allocate (.leaf signal)).2.Closed :=
    Arena.allocate_closed closed (by simp [Node.leaf])
  have grown := arena.allocate_extends (.leaf signal)
  exact ⟨⟨later, fun _ _ stands => stands.extend grown closed⟩, arena.stands_allocate_leaf signal⟩

namespace Netlist

def supportCircuit (netlist : Netlist) : Circuit Unit (List Signal) where
  netlist
  context := ()
  state := (List.range netlist.flipflops.length).map fun index => [.flipflop index]
  outputs := (List.range netlist.outputs.length).map fun index => [.output index]

def supportInputs (netlist : Netlist) : List (List Signal) :=
  (List.range netlist.inputs.length).map fun index => [.input index]

def supportTick (netlist : Netlist) : Tick Unit (List Signal) :=
  netlist.supportCircuit.tick .support netlist.supportInputs

theorem graphTick_standing (netlist : Netlist) :
    netlist.graphTick.result = netlist.supportTick.result ∧
      standing.Circuits netlist.graphTick.circuit netlist.supportTick.circuit :=
  standing_plants.graphTick (fun _ _ => trivial) Arena.closed_empty

end Netlist

namespace Roots

def Shows (roots : Roots) : Signal → Signal → Prop
  | .output index, signal => roots.Finds (.output index) signal
  | .input index, signal => signal = .input index
  | .flipflop index, signal => signal = .flipflop index

structure Draws (roots : Roots) (netlist : Netlist) : Prop where
  outputs : roots.outputs.length = netlist.outputs.length
  driven : ∀ assignment ∈ netlist.assignments, ∀ signal,
    roots.Finds assignment.target signal ↔
      ∃ operand ∈ assignment.operands, roots.Shows operand signal
  undriven : ∀ index, (∀ assignment ∈ netlist.assignments, assignment.target ≠ .flipflop index) →
    ∀ signal, roots.Finds (.flipflop index) signal → signal = .flipflop index

theorem finds_iff_of_stands {arena : Arena} {ids : List NodeId} {parts : List (List Signal)}
    (stand : List.Forall₂ arena.Stands ids parts) {index : Nat} {part : List Signal}
    (found : parts[index]? = some part) (signal : Signal) :
    (∃ root, ids[index]? = some root ∧ arena.Below root signal) ↔ signal ∈ part := by
  have related := Correspondence.rel_getElem? stand index
  rw [found] at related
  generalize ids[index]? = root at related ⊢
  cases related with
  | some stands =>
      rw [← stands.below signal]
      simp

end Roots

namespace Netlist

variable {netlist : Netlist}

theorem eq_of_getElem?_leaves {make : Nat → List Signal} {count index : Nat} {part : List Signal}
    (found : ((List.range count).map make)[index]? = some part) : part = make index := by
  rw [List.getElem?_map, Option.map_eq_some_iff] at found
  obtain ⟨position, there, rfl⟩ := found
  have same := (List.getElem?_eq_some_iff.mp there).2
  rw [List.getElem_range] at same
  rw [same]

theorem shows_iff_of_read {operand : Signal} {part : List Signal}
    (read : Scope.read ⟨netlist.supportInputs, netlist.supportCircuit.state,
      netlist.supportTick.circuit.outputs.map some⟩ operand = .ok part) (signal : Signal) :
    netlist.graphTick.circuit.roots.Shows operand signal ↔ signal ∈ part := by
  cases operand with
  | input index =>
      simp only [Scope.read] at read
      split at read
      · rename_i value found
        rw [← Except.ok.inj read, eq_of_getElem?_leaves found, List.mem_singleton]
        exact Iff.rfl
      · simp at read
  | flipflop index =>
      simp only [Scope.read] at read
      split at read
      · rename_i value found
        rw [← Except.ok.inj read, eq_of_getElem?_leaves found, List.mem_singleton]
        exact Iff.rfl
      · simp at read
  | output index =>
      rw [Scope.read_output_eq_ok_iff] at read
      exact Roots.finds_iff_of_stands netlist.graphTick_standing.2.outputs read signal

theorem graph_draws (orderly : netlist.Orderly) (ticked : netlist.graphTick.result = .ok ()) :
    netlist.graphTick.circuit.roots.Draws netlist := by
  obtain ⟨result, stand⟩ := netlist.graphTick_standing
  have collected : (netlist.supportCircuit.tick .support netlist.supportInputs).result = .ok () :=
    result ▸ ticked
  refine ⟨stand.outputs.length_eq.trans (Circuit.tick_outputs_length collected), ?_, ?_⟩
  · intro assignment member signal
    obtain ⟨signals, valued, present⟩ := Circuit.tick_value orderly collected member
    have finds : netlist.graphTick.circuit.roots.Finds assignment.target signal ↔
        signal ∈ signals := by
      cases target : assignment.target with
      | output index =>
          rw [target] at present
          exact Roots.finds_iff_of_stands stand.outputs present signal
      | flipflop index =>
          rw [target] at present
          exact Roots.finds_iff_of_stands stand.state present signal
    rw [finds, Interpretation.mem_value_support_iff valued]
    constructor
    · rintro ⟨operand, part, mentioned, read, inside⟩
      exact ⟨operand, (assignment.mem_operands_iff operand).mpr mentioned,
        (shows_iff_of_read read signal).mpr inside⟩
    · rintro ⟨operand, mentioned, visible⟩
      rw [assignment.mem_operands_iff] at mentioned
      obtain ⟨part, read⟩ := Interpretation.support.exists_read_of_evaluate valued mentioned
      exact ⟨operand, part, mentioned, read, (shows_iff_of_read read signal).mp visible⟩
  · intro index free signal finds
    have kept := Circuit.tick_undriven collected free
    have related := Correspondence.rel_getElem? stand.state index
    obtain ⟨root, driven, below⟩ := finds
    rw [show netlist.graphTick.circuit.state[index]? = some root from driven] at related
    cases found : netlist.supportTick.circuit.state[index]? with
    | none => rw [found] at related; cases related
    | some part =>
        have inside := (Roots.finds_iff_of_stands stand.state found signal).mp
          ⟨root, driven, below⟩
        have leaf := eq_of_getElem?_leaves (kept.symm.trans found)
        simpa [leaf] using inside

end Netlist

end GateLevel
