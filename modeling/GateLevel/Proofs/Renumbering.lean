import GateLevel.Proofs.Verdict
import Mathlib.Logic.Equiv.Basic

/-! What a simulator does shows neither the order in which the assignments were written nor which
slots the flip-flops take. -/

namespace GateLevel

variable {V : Type}

def Signal.renumber (slot : Nat → Nat) : Signal → Signal
  | .input index => .input index
  | .output index => .output index
  | .flipflop index => .flipflop (slot index)

def Target.renumber (slot : Nat → Nat) : Target → Target
  | .output index => .output index
  | .flipflop index => .flipflop (slot index)

def Token.renumber (slot : Nat → Nat) : Token → Token
  | .gate kind => .gate kind
  | .signal source => .signal (source.renumber slot)

def Assignment.renumber (slot : Nat → Nat) (assignment : Assignment) : Assignment :=
  ⟨assignment.target.renumber slot, assignment.expression.map (Token.renumber slot)⟩

theorem Signal.renumber_symm (slot : Equiv.Perm Nat) (signal : Signal) :
    (signal.renumber slot).renumber slot.symm = signal := by
  cases signal <;> simp [renumber]

theorem Target.renumber_symm (slot : Equiv.Perm Nat) (target : Target) :
    (target.renumber slot).renumber slot.symm = target := by
  cases target <;> simp [renumber]

theorem Token.renumber_symm (slot : Equiv.Perm Nat) (token : Token) :
    (token.renumber slot).renumber slot.symm = token := by
  cases token <;> simp [renumber, Signal.renumber_symm]

theorem Assignment.renumber_symm (slot : Equiv.Perm Nat) (assignment : Assignment) :
    (assignment.renumber slot).renumber slot.symm = assignment := by
  simp [renumber, Target.renumber_symm, Function.comp_def, Token.renumber_symm]

theorem Target.signal_renumber (slot : Nat → Nat) (target : Target) :
    (target.renumber slot).signal = target.signal.renumber slot := by
  cases target <;> rfl

theorem Target.renumber_eq_flipflop_iff (slot : Equiv.Perm Nat) (target : Target) (index : Nat) :
    target.renumber slot = .flipflop (slot index) ↔ target = .flipflop index := by
  cases target <;> simp [renumber]

theorem Assignment.target_renumber_output {assignment : Assignment} {index : Nat}
    (target : assignment.target = .output index) (slot : Nat → Nat) :
    (assignment.renumber slot).target = .output index := by
  rw [renumber, target, Target.renumber]

theorem Assignment.mem_operands_renumber (slot : Nat → Nat) (assignment : Assignment)
    (signal : Signal) : signal ∈ (assignment.renumber slot).operands ↔
      ∃ read ∈ assignment.operands, read.renumber slot = signal := by
  simp only [mem_operands_iff, renumber, List.mem_map]
  constructor
  · rintro ⟨token, member, same⟩
    cases token with
    | gate kind => cases same
    | signal source => exact ⟨source, member, Token.signal.inj same⟩
  · rintro ⟨source, member, rfl⟩
    exact ⟨.signal source, member, rfl⟩

theorem heightAfter_renumber (slot : Nat → Nat) (tokens : List Token) (height : Nat) :
    heightAfter (tokens.map (Token.renumber slot)) height = heightAfter tokens height := by
  induction tokens generalizing height with
  | nil => rfl
  | cons token rest ih =>
      cases token with
      | signal source => exact ih (height + 1)
      | gate gate =>
          simp only [List.map_cons, Token.renumber, heightAfter]
          split
          · rfl
          · exact ih _

theorem polish_renumber_iff (slot : Nat → Nat) (expression : List Token) :
    Polish (expression.map (Token.renumber slot)) ↔ Polish expression := by
  rw [polish_iff, polish_iff, heightAfter_renumber]

def Relocated {α : Type} (slot : Equiv.Perm Nat) (values others : List α) : Prop :=
  ∀ index, values[index]? = others[slot index]?

namespace Relocated

variable {α : Type} {slot : Equiv.Perm Nat} {values others : List α}

theorem symm (relocated : Relocated slot values others) : Relocated slot.symm others values := by
  intro index
  rw [relocated (slot.symm index), Equiv.apply_symm_apply]

theorem lt_length_iff (relocated : Relocated slot values others) (index : Nat) :
    slot index < others.length ↔ index < values.length := by
  rw [← Nat.not_le, ← Nat.not_le, ← List.getElem?_eq_none_iff, ← List.getElem?_eq_none_iff,
    relocated index]

theorem eq_nil (relocated : Relocated slot values others) (empty : values = []) : others = [] := by
  refine List.eq_nil_iff_length_eq_zero.mpr (Nat.eq_zero_of_not_pos fun some => ?_)
  rw [← Equiv.apply_symm_apply slot 0, relocated.lt_length_iff, empty] at some
  simp at some

theorem nodup (relocated : Relocated slot values others) (distinct : values.Nodup) :
    others.Nodup := by
  rw [List.nodup_iff_getElem?_ne_getElem?]
  intro first second before bound same
  rw [relocated.symm, relocated.symm second] at same
  have inside := (relocated.symm.lt_length_iff first).mpr (Nat.lt_trans before bound)
  exact Nat.ne_of_lt before (slot.symm.injective ((List.getElem?_inj inside distinct).mp same))

end Relocated

def Netlist.declaration (netlist : Netlist) : Declaration :=
  ⟨netlist.toHeader, netlist.assignments⟩

namespace Declaration

/-- The second declaration has the flip-flops of the first in other slots, and its assignments in
any order. -/
structure Renumbering (slot : Equiv.Perm Nat) (first second : Declaration) : Prop where
  name : first.name = second.name
  clocked : first.clocked = second.clocked
  inputs : first.inputs = second.inputs
  outputs : first.outputs = second.outputs
  flipflops : Relocated slot first.flipflops second.flipflops
  assignments : second.assignments.Perm (first.assignments.map (Assignment.renumber slot))

namespace Renumbering

variable {slot : Equiv.Perm Nat} {first second : Declaration}

theorem symm (renumbering : first.Renumbering slot second) :
    second.Renumbering slot.symm first := by
  obtain ⟨name, clocked, inputs, outputs, flipflops, assignments⟩ := renumbering
  refine ⟨name.symm, clocked.symm, inputs.symm, outputs.symm, flipflops.symm, ?_⟩
  have back := (assignments.map (Assignment.renumber slot.symm)).symm
  rw [List.map_map] at back
  simpa [Function.comp_def, Assignment.renumber_symm] using back

theorem mem (renumbering : first.Renumbering slot second) {assignment : Assignment}
    (member : assignment ∈ first.assignments) :
    assignment.renumber slot ∈ second.assignments :=
  renumbering.assignments.mem_iff.mpr (List.mem_map_of_mem member)

theorem exists_original (renumbering : first.Renumbering slot second) {assignment : Assignment}
    (member : assignment ∈ second.assignments) :
    ∃ original ∈ first.assignments, original.renumber slot = assignment :=
  List.mem_map.mp (renumbering.assignments.mem_iff.mp member)

theorem declares (renumbering : first.Renumbering slot second) {signal : Signal}
    (declared : first.Declares signal) : second.Declares (signal.renumber slot) := by
  cases signal with
  | input index => exact Nat.lt_of_lt_of_eq declared (congrArg List.length renumbering.inputs)
  | output index => exact Nat.lt_of_lt_of_eq declared (congrArg List.length renumbering.outputs)
  | flipflop index => exact (renumbering.flipflops.lt_length_iff index).mpr declared

theorem wellFormed (renumbering : first.Renumbering slot second) (wellFormed : first.WellFormed) :
    second.WellFormed where
  clocked := by
    rw [← renumbering.clocked]
    exact wellFormed.clocked.imp_right renumbering.flipflops.eq_nil
  ports_distinct := by
    rw [← renumbering.inputs, ← renumbering.outputs]
    exact wellFormed.ports_distinct
  flipflops_distinct := renumbering.flipflops.nodup wellFormed.flipflops_distinct
  targets_declared := by
    intro assignment member
    obtain ⟨original, present, rfl⟩ := renumbering.exists_original member
    rw [Assignment.renumber, Target.signal_renumber]
    exact renumbering.declares (wellFormed.targets_declared original present)
  operands_declared := by
    intro assignment member signal mentioned
    obtain ⟨original, present, rfl⟩ := renumbering.exists_original member
    rw [← Assignment.mem_operands_iff, Assignment.mem_operands_renumber] at mentioned
    obtain ⟨read, operand, rfl⟩ := mentioned
    exact renumbering.declares (wellFormed.operands_declared original present read
      ((original.mem_operands_iff read).mp operand))
  targets_distinct := by
    have distinct := wellFormed.targets_distinct.map
      (Function.LeftInverse.injective (Target.renumber_symm slot))
    rw [List.map_map] at distinct
    rw [(renumbering.assignments.map _).nodup_iff, List.map_map]
    exact distinct
  expressions_nonempty := by
    intro assignment member
    obtain ⟨original, present, rfl⟩ := renumbering.exists_original member
    simpa [Assignment.renumber] using wellFormed.expressions_nonempty original present
  outputs_assigned := by
    intro index bound
    rw [← renumbering.outputs] at bound
    obtain ⟨assignment, member, target⟩ := wellFormed.outputs_assigned index bound
    exact ⟨assignment.renumber slot, renumbering.mem member,
      Assignment.target_renumber_output target slot⟩

theorem polish_iff (renumbering : first.Renumbering slot second) :
    (∀ assignment ∈ first.assignments, Polish assignment.expression) ↔
      ∀ assignment ∈ second.assignments, Polish assignment.expression := by
  constructor
  · intro polish assignment member
    obtain ⟨original, present, rfl⟩ := renumbering.exists_original member
    exact (polish_renumber_iff slot _).mpr (polish original present)
  · intro polish assignment member
    exact (polish_renumber_iff slot _).mp (polish _ (renumbering.mem member))

theorem outputReads (renumbering : first.Renumbering slot second) {reader read : Nat}
    (reads : OutputReads second.assignments reader read) :
    OutputReads first.assignments reader read := by
  obtain ⟨assignment, member, target, mentioned⟩ := reads
  refine ⟨_, renumbering.symm.mem member, Assignment.target_renumber_output target _, ?_⟩
  rw [Assignment.mem_operands_renumber]
  exact ⟨.output read, mentioned, rfl⟩

theorem acyclic (renumbering : first.Renumbering slot second) (acyclic : first.Acyclic) :
    second.Acyclic :=
  fun index loop => acyclic index
    (Relation.TransGen.mono (fun _ _ => renumbering.outputReads) index index loop)

theorem exists_resolve (renumbering : first.Renumbering slot second)
    (resolves : ∃ netlist, first.resolve = .ok netlist) :
    ∃ netlist, second.resolve = .ok netlist := by
  obtain ⟨netlist, resolved⟩ := resolves
  have wellFormed := wellFormed_of_resolve resolved
  rw [(renumbering.wellFormed wellFormed).exists_resolve_iff]
  exact renumbering.acyclic (wellFormed.exists_resolve_iff.mp ⟨netlist, resolved⟩)

end Renumbering

end Declaration

namespace Interpretation

theorem execute_renumber {σ : Type} (meaning : Interpretation σ V) (slot : Nat → Nat)
    {scope other : Scope V} {tokens : List Token}
    (agree : ∀ signal, Token.signal signal ∈ tokens →
      other.read (signal.renumber slot) = scope.read signal)
    (stack : List V) (context : σ) :
    meaning.execute other (tokens.map (Token.renumber slot)) stack context =
      meaning.execute scope tokens stack context := by
  induction tokens generalizing stack context with
  | nil => rfl
  | cons token rest ih =>
      have later : ∀ signal, Token.signal signal ∈ rest →
          other.read (signal.renumber slot) = scope.read signal :=
        fun signal member => agree signal (List.mem_cons_of_mem _ member)
      cases token with
      | signal signal =>
          simp only [List.map_cons, Token.renumber, execute, agree signal (by simp)]
          split
          · rfl
          · exact ih later _ _
      | gate gate =>
          simp only [List.map_cons, Token.renumber, execute]
          split
          · rfl
          · exact ih later _ _

theorem value_renumber (meaning : Interpretation Unit V) {slot : Equiv.Perm Nat}
    {state others : List V} (relocated : Relocated slot state others) (inputs outputs : List V)
    {expression : List Token}
    (inside : ∀ index, Token.signal (.flipflop index) ∈ expression → index < state.length) :
    meaning.value inputs others outputs (expression.map (Token.renumber slot)) =
      meaning.value inputs state outputs expression := by
  rw [value, value, evaluate, evaluate, meaning.execute_renumber slot]
  intro signal mentioned
  cases signal with
  | input index => rfl
  | output index => rfl
  | flipflop index =>
      have bound := inside index mentioned
      have same := relocated index
      rw [List.getElem?_eq_getElem bound] at same
      simp only [Signal.renumber, Scope.read, ← same, List.getElem?_eq_getElem bound]

end Interpretation

namespace Netlist

structure Renumbering (slot : Equiv.Perm Nat) (netlist other : Netlist) : Prop extends
    Declaration.Renumbering slot netlist.declaration other.declaration where
  orderly : netlist.Orderly
  otherOrderly : other.Orderly

variable {netlist other : Netlist} {slot : Equiv.Perm Nat}
  {inputs state others outputs : List V}

theorem Renumbering.of_resolve {first second : Declaration}
    (renumbering : first.Renumbering slot second) (resolved : first.resolve = .ok netlist)
    (otherResolved : second.resolve = .ok other) : netlist.Renumbering slot other := by
  refine ⟨?_, Declaration.orderly_of_resolve resolved, Declaration.orderly_of_resolve otherResolved⟩
  obtain ⟨header, perm, _⟩ := Declaration.resolve_eq_ok resolved
  obtain ⟨otherHeader, otherPerm, _⟩ := Declaration.resolve_eq_ok otherResolved
  obtain ⟨name, clocked, inputs, outputs, flipflops, assignments⟩ := renumbering
  obtain ⟨_, order⟩ := netlist
  obtain ⟨_, otherOrder⟩ := other
  subst header otherHeader
  exact ⟨name, clocked, inputs, outputs, flipflops,
    otherPerm.trans (assignments.trans (perm.map _).symm)⟩

theorem Orderly.value_renumber (orderly : netlist.Orderly) (meaning : Interpretation Unit V)
    (length : state.length = netlist.flipflops.length) (relocated : Relocated slot state others)
    (inputs outputs : List V) {assignment : Assignment}
    (member : assignment ∈ netlist.assignments) :
    meaning.value inputs others outputs (assignment.renumber slot).expression =
      meaning.value inputs state outputs assignment.expression := by
  refine meaning.value_renumber relocated inputs outputs fun index mentioned => ?_
  rw [length]
  exact orderly.operands_declared assignment member (.flipflop index)
    ((assignment.mem_operands_iff _).mpr mentioned)

/-- What solves the equations of the one netlist solves those of the other. -/
theorem Renumbering.solves (renumbering : netlist.Renumbering slot other)
    {meaning : Interpretation Unit V} (length : state.length = netlist.flipflops.length)
    (relocated : Relocated slot state others)
    (solves : other.Solves meaning inputs others outputs) :
    netlist.Solves meaning inputs state outputs := by
  have same : netlist.outputs = other.outputs := renumbering.outputs
  refine ⟨same ▸ solves.1, ?_⟩
  intro index bound
  have declared : index < netlist.outputs.length := by rwa [same, ← solves.1]
  obtain ⟨assignment, member, target⟩ := renumbering.orderly.outputs_driven index declared
  refine ⟨assignment.expression, ?_, ?_⟩
  · rw [renumbering.orderly.expression?_eq_some_iff, ← target]
    exact member
  · obtain ⟨value, present, valued⟩ := solves.getElem? renumbering.otherOrderly
      (renumbering.mem member) (Assignment.target_renumber_output target slot)
    rw [renumbering.orderly.value_renumber meaning length relocated _ _ member] at valued
    rw [valued, (List.getElem?_eq_some_iff.mp present).2]

end Netlist

namespace Circuit

structure Renumbered (slot : Equiv.Perm Nat) (netlist other : Netlist)
    (circuit partner : Circuit Unit V) : Prop where
  runs : circuit.Runs netlist
  partnerRuns : partner.Runs other
  outputs : circuit.outputs = partner.outputs
  state : Relocated slot circuit.state partner.state

namespace Renumbered

variable {netlist other : Netlist} {slot : Equiv.Perm Nat} {circuit partner : Circuit Unit V}
  {meaning : Interpretation Unit V} {inputs : List V}

theorem driven (renumbered : Renumbered slot netlist other circuit partner)
    (renumbering : netlist.Renumbering slot other)
    (outputs : (circuit.tick meaning inputs).circuit.outputs =
      (partner.tick meaning inputs).circuit.outputs)
    (ticked : (circuit.tick meaning inputs).result = .ok ())
    (partnerTicked : (partner.tick meaning inputs).result = .ok ()) {assignment : Assignment}
    (member : assignment ∈ netlist.assignments) :
    (circuit.tick meaning inputs).circuit.value? assignment.target =
      (partner.tick meaning inputs).circuit.value? (assignment.renumber slot).target := by
  obtain ⟨⟨rfl, length⟩, ⟨rfl, _⟩, _, state⟩ := renumbered
  obtain ⟨value, valued, present⟩ := tick_value renumbering.orderly ticked member
  obtain ⟨moved, movedValued, movedPresent⟩ :=
    tick_value renumbering.otherOrderly partnerTicked (renumbering.mem member)
  rw [renumbering.orderly.value_renumber meaning length state _ _ member, ← outputs, valued,
    Except.ok.injEq] at movedValued
  rw [present, movedPresent, movedValued]

theorem undriven (renumbered : Renumbered slot netlist other circuit partner)
    (renumbering : netlist.Renumbering slot other)
    (ticked : (circuit.tick meaning inputs).result = .ok ())
    (partnerTicked : (partner.tick meaning inputs).result = .ok ()) {index : Nat}
    (free : ∀ assignment ∈ netlist.assignments, assignment.target ≠ .flipflop index) :
    (circuit.tick meaning inputs).circuit.state[index]? =
      (partner.tick meaning inputs).circuit.state[slot index]? := by
  obtain ⟨⟨rfl, _⟩, ⟨rfl, _⟩, _, state⟩ := renumbered
  have partnerFree : ∀ assignment ∈ partner.netlist.assignments,
      assignment.target ≠ .flipflop (slot index) := by
    intro assignment member target
    obtain ⟨original, present, rfl⟩ := renumbering.exists_original member
    exact free original present ((original.target.renumber_eq_flipflop_iff slot index).mp target)
  rw [tick_undriven ticked free, tick_undriven partnerTicked partnerFree]
  exact state index

theorem tick_ok (renumbered : Renumbered slot netlist other circuit partner)
    (renumbering : netlist.Renumbering slot other)
    (ticked : (circuit.tick meaning inputs).result = .ok ())
    (partnerTicked : (partner.tick meaning inputs).result = .ok ()) :
    Renumbered slot netlist other (circuit.tick meaning inputs).circuit
      (partner.tick meaning inputs).circuit := by
  have outputs : (circuit.tick meaning inputs).circuit.outputs =
      (partner.tick meaning inputs).circuit.outputs := by
    obtain ⟨⟨rfl, length⟩, ⟨rfl, _⟩, _, state⟩ := renumbered
    -- In whatever order they were found, both solve the equations of the first netlist.
    exact (tick_solves renumbering.orderly ticked).unique renumbering.orderly
      (renumbering.solves length state (tick_solves renumbering.otherOrderly partnerTicked))
  refine ⟨renumbered.runs.tick meaning inputs, renumbered.partnerRuns.tick meaning inputs,
    outputs, ?_⟩
  intro index
  by_cases driven : ∃ assignment ∈ netlist.assignments, assignment.target = .flipflop index
  · obtain ⟨assignment, member, target⟩ := driven
    have same := renumbered.driven renumbering outputs ticked partnerTicked member
    rw [Assignment.renumber, target] at same
    exact same
  · exact renumbered.undriven renumbering ticked partnerTicked (by simpa using driven)

theorem tick (renumbered : Renumbered slot netlist other circuit partner)
    (renumbering : netlist.Renumbering slot other) (meaning : Interpretation Unit V)
    (inputs : List V) :
    ((circuit.tick meaning inputs).result = .ok () ↔
        (partner.tick meaning inputs).result = .ok ()) ∧
      Renumbered slot netlist other (circuit.tick meaning inputs).circuit
        (partner.tick meaning inputs).circuit := by
  have both : (circuit.tick meaning inputs).result = .ok () ↔
      (partner.tick meaning inputs).result = .ok () := by
    have width : netlist.inputs = other.inputs := renumbering.inputs
    rw [renumbered.runs.tick_eq_ok_iff meaning renumbering.orderly,
      renumbered.partnerRuns.tick_eq_ok_iff meaning renumbering.otherOrderly, width]
    exact and_congr_right fun _ => renumbering.polish_iff
  refine ⟨both, ?_⟩
  cases ticked : (circuit.tick meaning inputs).result with
  | ok done => exact renumbered.tick_ok renumbering ticked (both.mp ticked)
  | error error =>
      cases moved : (partner.tick meaning inputs).result with
      | ok done => simp [ticked, moved] at both
      | error otherError =>
          obtain ⟨_, state, outputs⟩ := tick_error ticked
          obtain ⟨_, partnerState, partnerOutputs⟩ := tick_error moved
          refine ⟨renumbered.runs.tick meaning inputs, renumbered.partnerRuns.tick meaning inputs,
            ?_, ?_⟩
          · rw [outputs, partnerOutputs, renumbered.outputs]
          · rw [state, partnerState]
            exact renumbered.state

theorem trace (renumbered : Renumbered slot netlist other circuit partner)
    (renumbering : netlist.Renumbering slot other) (meaning : Interpretation Unit V)
    (vectors : List (List V)) :
    List.Forall₂ (fun tick moved => (tick.result = .ok () ↔ moved.result = .ok ()) ∧
        Renumbered slot netlist other tick.circuit moved.circuit)
      (circuit.trace meaning vectors) (partner.trace meaning vectors) := by
  induction vectors generalizing circuit partner with
  | nil => exact .nil
  | cons inputs rest ih =>
      have step := renumbered.tick renumbering meaning inputs
      exact .cons step (ih step.2)

end Renumbered

end Circuit

theorem Netlist.Renumbering.simulator {netlist other : Netlist} {slot : Equiv.Perm Nat}
    (renumbering : netlist.Renumbering slot other) :
    Circuit.Renumbered slot netlist other netlist.simulator other.simulator := by
  have same : netlist.outputs = other.outputs := renumbering.outputs
  refine ⟨netlist.simulator_runs, other.simulator_runs, ?_, ?_⟩
  · rw [Netlist.simulator, Netlist.simulator, same]
  · intro index
    simp only [Netlist.simulator, List.getElem?_replicate]
    exact if_congr (renumbering.flipflops.lt_length_iff index).symm rfl rfl

/-- A declaration with the same assignments in any other order, the flip-flops having moved to
other slots, is accepted together with the first one. New simulators of the two succeed in the same
ticks, and show the same outputs after each; what the one has in a slot, the other has in the slot
that took its place. -/
theorem Declaration.order_and_slots_irrelevant {slot : Equiv.Perm Nat} {first second : Declaration}
    (renumbering : first.Renumbering slot second) :
    ((∃ netlist, first.resolve = .ok netlist) ↔ ∃ other, second.resolve = .ok other) ∧
      ∀ netlist other, first.resolve = .ok netlist → second.resolve = .ok other →
        ∀ vectors : List (List Level),
          List.Forall₂ (fun tick moved => (tick.result = .ok () ↔ moved.result = .ok ()) ∧
              tick.circuit.outputs = moved.circuit.outputs ∧
              ∀ index, tick.circuit.state[index]? = moved.circuit.state[slot index]?)
            (netlist.simulator.trace .level vectors) (other.simulator.trace .level vectors) := by
  refine ⟨⟨renumbering.exists_resolve, renumbering.symm.exists_resolve⟩, ?_⟩
  intro netlist other resolved otherResolved vectors
  have moved := Netlist.Renumbering.of_resolve renumbering resolved otherResolved
  exact (moved.simulator.trace moved .level vectors).imp fun _ _ step =>
    ⟨step.1, step.2.outputs, step.2.state⟩

def Declaration.turnedRing : Declaration where
  name := "Ring"
  clocked := true
  inputs := ["A", "B", "C"]
  flipflops := [1, 0, 2]
  outputs := ["X", "Y"]
  assignments := [
    ⟨.flipflop 0, [.signal (.flipflop 1), .signal (.input 1), .gate (.binary .or)]⟩,
    ⟨.output 1, [.signal (.output 0), .signal (.input 2), .gate (.binary .and),
      .signal (.flipflop 2), .gate (.binary .or)]⟩,
    ⟨.output 0, [.signal (.input 0), .signal (.flipflop 1), .gate (.binary .xor)]⟩,
    ⟨.flipflop 1, [.signal (.output 0), .signal (.flipflop 0), .gate (.binary .and)]⟩]

theorem Declaration.ring_renumbering : ring.Renumbering (Equiv.swap 0 1) turnedRing := by
  refine ⟨rfl, rfl, rfl, rfl, ?_, by decide +kernel⟩
  rintro (_ | _ | _ | index)
  · rfl
  · rfl
  · rfl
  · rw [Equiv.swap_apply_of_ne_of_ne (by omega) (by omega)]
    rfl

/-- The flip-flop that rises with `B` stands in the second slot of the ring, and in the first slot
of the turned one. -/
theorem Declaration.order_and_slots_irrelevant_ring :
    ∃ turned, turnedRing.resolve = .ok turned ∧
      (Netlist.ring.simulator.tick [.low, .high, .low]).circuit.state[1]? = some .high ∧
      (turned.simulator.tick [.low, .high, .low]).circuit.state[0]? = some .high ∧
      (Netlist.ring.simulator.tick [.low, .high, .low]).circuit.outputs =
        (turned.simulator.tick [.low, .high, .low]).circuit.outputs := by
  have resolved : ring.resolve = .ok .ring := by decide +kernel
  obtain ⟨accepts, behave⟩ := order_and_slots_irrelevant ring_renumbering
  obtain ⟨turned, turnedResolved⟩ := accepts.mp ⟨.ring, resolved⟩
  have risen : (Netlist.ring.simulator.tick [.low, .high, .low]).circuit.state[1]? =
      some .high := by decide
  cases behave .ring turned resolved turnedResolved [[.low, .high, .low]] with
  | cons step _ => exact ⟨turned, turnedResolved, risen, (step.2.2 1).symm.trans risen, step.2.1⟩

end GateLevel
