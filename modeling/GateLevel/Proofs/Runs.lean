import GateLevel.Proofs.Correspondence
import GateLevel.Proofs.Equations
import Mathlib.Logic.Relation

/-! Runs of a circuit, tick after tick: what they keep, and what a failing tick leaves alone. -/

namespace GateLevel

variable {σ τ V W : Type}

namespace Circuit

def trace (meaning : Interpretation σ V) : List (List V) → Circuit σ V → List (Tick σ V)
  | [], _ => []
  | inputs :: rest, circuit =>
    let tick := circuit.tick meaning inputs
    tick :: trace meaning rest tick.circuit

def Leads (meaning : Interpretation σ V) (allowed : σ → List V → Prop) :
    Circuit σ V → Circuit σ V → Prop :=
  Relation.ReflTransGen fun before after =>
    ∃ inputs, allowed before.context inputs ∧ after = (before.tick meaning inputs).circuit

structure Runs (netlist : Netlist) (circuit : Circuit σ V) : Prop where
  same : circuit.netlist = netlist
  state : circuit.state.length = netlist.flipflops.length

variable {meaning : Interpretation σ V} {inputs : List V} {circuit : Circuit σ V}

theorem tick_error {error : EvalError}
    (failed : (circuit.tick meaning inputs).result = .error error) :
    (circuit.tick meaning inputs).circuit.netlist = circuit.netlist ∧
      (circuit.tick meaning inputs).circuit.state = circuit.state ∧
      (circuit.tick meaning inputs).circuit.outputs = circuit.outputs := by
  simp only [tick] at failed ⊢
  split
  · exact ⟨rfl, rfl, rfl⟩
  · rename_i sized
    rw [if_neg sized] at failed
    generalize Settling.run meaning inputs circuit.state circuit.netlist.assignments _ = ran
      at failed ⊢
    obtain ⟨result, final, begun⟩ := ran
    cases result with
    | error cause => exact ⟨rfl, rfl, rfl⟩
    | ok done =>
        simp only at failed ⊢
        cases driven : Settling.drivenFrom 0 final.outputs with
        | error cause => exact ⟨rfl, rfl, rfl⟩
        | ok outputs => simp [driven] at failed

theorem netlist_tick (meaning : Interpretation σ V) (inputs : List V) (circuit : Circuit σ V) :
    (circuit.tick meaning inputs).circuit.netlist = circuit.netlist := by
  cases result : (circuit.tick meaning inputs).result with
  | error error => exact (tick_error result).1
  | ok done => exact tick_netlist result

theorem tick_outputs (meaning : Interpretation σ V) (inputs : List V) (circuit : Circuit σ V)
    (outputs : List V) :
    (tick meaning inputs { circuit with outputs }).result =
        (circuit.tick meaning inputs).result ∧
      ((circuit.tick meaning inputs).result = .ok () →
        (tick meaning inputs { circuit with outputs }).circuit =
          (circuit.tick meaning inputs).circuit) := by
  simp only [tick]
  split
  · simp
  · rcases Settling.run meaning inputs circuit.state circuit.netlist.assignments _ with
      ⟨result, final, begun⟩
    cases result with
    | error cause => simp
    | ok done => cases Settling.drivenFrom 0 final.outputs <;> simp

namespace Runs

variable {netlist : Netlist}

theorem tick (runs : circuit.Runs netlist) (meaning : Interpretation σ V) (inputs : List V) :
    (circuit.tick meaning inputs).circuit.Runs netlist := by
  refine ⟨(netlist_tick meaning inputs circuit).trans runs.same, ?_⟩
  cases result : (circuit.tick meaning inputs).result with
  | error error => rw [(tick_error result).2.1, runs.state]
  | ok done => exact (tick_state_length result).trans runs.state

theorem leads (runs : circuit.Runs netlist) {allowed : σ → List V → Prop} {later : Circuit σ V}
    (leads : circuit.Leads meaning allowed later) : later.Runs netlist := by
  induction leads with
  | refl => exact runs
  | tail _ step ih =>
      obtain ⟨inputs, _, rfl⟩ := step
      exact ih.tick meaning inputs

end Runs

end Circuit

/-- Nothing reads what the outputs show before a tick, so nothing needs to be known of it where the
tick succeeds. -/
theorem Correspondence.tick_of_state {first : Interpretation σ V} {second : Interpretation τ W}
    (correspondence : Correspondence first second) {circuit : Circuit σ V} {partner : Circuit τ W}
    (netlist : circuit.netlist = partner.netlist)
    (world : correspondence.World circuit.context partner.context)
    (state : List.Forall₂ (correspondence.Related circuit.context partner.context)
      circuit.state partner.state) {inputs : List V} {others : List W}
    (related : List.Forall₂ (correspondence.Related circuit.context partner.context)
      inputs others) :
    (circuit.tick first inputs).result = (partner.tick second others).result ∧
      ((circuit.tick first inputs).result = .ok () →
        correspondence.Circuits (circuit.tick first inputs).circuit
          (partner.tick second others).circuit) := by
  have circuits : correspondence.Circuits { circuit with outputs := [] }
      { partner with outputs := [] } := ⟨netlist, world, state, .nil⟩
  obtain ⟨result, _, after⟩ := circuits.tick related
  obtain ⟨left, leftCircuit⟩ := Circuit.tick_outputs first inputs circuit []
  obtain ⟨right, rightCircuit⟩ := Circuit.tick_outputs second others partner []
  have same : (circuit.tick first inputs).result = (partner.tick second others).result :=
    left.symm.trans (result.trans right)
  refine ⟨same, fun ticked => ?_⟩
  rw [leftCircuit ticked, rightCircuit (same.symm.trans ticked)] at after
  exact after

theorem Netlist.simulator_runs (netlist : Netlist) : netlist.simulator.Runs netlist :=
  ⟨rfl, List.length_replicate ..⟩

end GateLevel
