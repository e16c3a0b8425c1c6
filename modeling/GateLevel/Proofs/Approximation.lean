import GateLevel.Proofs.Correspondence
import GateLevel.Proofs.Runs
import GateLevel.Simulation

/-! A simulator that knows less shows less, but nothing else: what it finds to be low or high is so
in every simulator that knows more, throughout a run. -/

namespace GateLevel

namespace Level

def Approximates (level exact : Level) : Prop := level = .unknown ∨ level = exact

instance (level exact : Level) : Decidable (level.Approximates exact) :=
  inferInstanceAs (Decidable (_ ∨ _))

namespace Approximates

theorem refl (level : Level) : level.Approximates level := Or.inr rfl

theorem trans {level closer exact : Level} (first : level.Approximates closer)
    (second : closer.Approximates exact) : level.Approximates exact := by
  rcases first with rfl | rfl
  · exact Or.inl rfl
  · exact second

theorem not {level exact : Level} (approximates : level.Approximates exact) :
    level.not.Approximates exact.not := by
  rcases approximates with rfl | rfl
  · exact Or.inl rfl
  · exact refl _

/-- An operation that loses nothing but knowledge when one operand becomes unknown. -/
theorem map₂ {operation : Level → Level → Level}
    (first : ∀ exact other, (operation .unknown other).Approximates (operation exact other))
    (last : ∀ other exact, (operation other .unknown).Approximates (operation other exact))
    {left exactLeft right exactRight : Level} (leftApproximates : left.Approximates exactLeft)
    (rightApproximates : right.Approximates exactRight) :
    (operation left right).Approximates (operation exactLeft exactRight) := by
  have outer : (operation left right).Approximates (operation exactLeft right) := by
    rcases leftApproximates with rfl | rfl
    · exact first exactLeft right
    · exact refl _
  have inner : (operation exactLeft right).Approximates (operation exactLeft exactRight) := by
    rcases rightApproximates with rfl | rfl
    · exact last exactLeft exactRight
    · exact refl _
  exact outer.trans inner

theorem and {left exactLeft right exactRight : Level} (first : left.Approximates exactLeft)
    (last : right.Approximates exactRight) :
    (left.and right).Approximates (exactLeft.and exactRight) := by
  refine map₂ ?_ ?_ first last
  · intro exact other
    cases exact <;> cases other <;> decide
  · intro other exact
    cases other <;> cases exact <;> decide

theorem or {left exactLeft right exactRight : Level} (first : left.Approximates exactLeft)
    (last : right.Approximates exactRight) :
    (left.or right).Approximates (exactLeft.or exactRight) := by
  have deMorgan : ∀ left right : Level, left.or right = (left.not.and right.not).not := by
    intro left right
    cases left <;> cases right <;> rfl
  rw [deMorgan, deMorgan]
  exact (first.not.and last.not).not

theorem xor {left exactLeft right exactRight : Level} (first : left.Approximates exactLeft)
    (last : right.Approximates exactRight) :
    (left.xor right).Approximates (exactLeft.xor exactRight) := by
  refine map₂ ?_ ?_ first last
  · intro exact other
    exact Or.inl rfl
  · intro other exact
    cases other <;> exact Or.inl rfl

theorem apply (gate : BinaryGate) {left exactLeft right exactRight : Level}
    (first : left.Approximates exactLeft) (last : right.Approximates exactRight) :
    (gate.apply left right).Approximates (gate.apply exactLeft exactRight) := by
  cases gate with
  | and => exact first.and last
  | or => exact first.or last
  | xor => exact first.xor last
  | nand => exact (first.and last).not
  | nor => exact (first.or last).not
  | xnor => exact (first.xor last).not

theorem toChar {level exact : Level} (approximates : level.Approximates exact) :
    level.toChar = 'x' ∨ level.toChar = exact.toChar := by
  rcases approximates with rfl | rfl
  · exact Or.inl rfl
  · exact Or.inr rfl

end Approximates

end Level

def approximation : Correspondence .level .level where
  World _ _ := True
  Related _ _ level exact := level.Approximates exact
  invert _ approximates := ⟨trivial, fun _ _ other => other, approximates.not⟩
  combine gate _ _ _ _ _ _ _ last first := ⟨trivial, fun _ _ other => other, first.apply gate last⟩

abbrev Approximate : List Level → List Level → Prop := List.Forall₂ Level.Approximates

theorem Approximate.refl (levels : List Level) : Approximate levels levels :=
  List.forall₂_same.mpr fun level _ => .refl level

theorem Approximate.unknown (levels : List Level) :
    Approximate (List.replicate levels.length .unknown) levels := by
  induction levels with
  | nil => exact .nil
  | cons level rest ih => exact .cons (Or.inl rfl) ih

namespace Simulator

variable {simulator partner : Simulator} {inputs others : List Level}

theorem tick_approximates (netlist : simulator.netlist = partner.netlist)
    (state : Approximate simulator.state partner.state) (approximate : Approximate inputs others) :
    (simulator.tick inputs).result = (partner.tick others).result ∧
      (simulator.tick inputs).circuit.netlist = (partner.tick others).circuit.netlist ∧
      Approximate (simulator.tick inputs).circuit.state (partner.tick others).circuit.state ∧
      ((simulator.tick inputs).result = .ok () ∨ Approximate simulator.outputs partner.outputs →
        Approximate (simulator.tick inputs).circuit.outputs
          (partner.tick others).circuit.outputs) := by
  obtain ⟨same, after⟩ := approximation.tick_of_state netlist trivial state approximate
  refine ⟨same, ?_, ?_⟩
  · exact (Circuit.netlist_tick ..).trans (netlist.trans (Circuit.netlist_tick ..).symm)
  · cases ticked : (simulator.tick inputs).result with
    | ok done => exact ⟨(after ticked).state, fun _ => (after ticked).outputs⟩
    | error error =>
        obtain ⟨_, kept, shown⟩ := Circuit.tick_error ticked
        obtain ⟨_, partnerKept, partnerShown⟩ := Circuit.tick_error (same.symm.trans ticked)
        simp only [Simulator.tick, kept, shown, partnerKept, partnerShown]
        exact ⟨state, fun known => known.resolve_left (by simp)⟩

theorem trace_approximates (netlist : simulator.netlist = partner.netlist)
    (state : Approximate simulator.state partner.state) {vectors otherVectors : List (List Level)}
    (approximate : List.Forall₂ Approximate vectors otherVectors) :
    List.Forall₂ (fun tick other => tick.result = other.result ∧
        Approximate tick.circuit.state other.circuit.state ∧
        (tick.result = .ok () ∨ Approximate simulator.outputs partner.outputs →
          Approximate tick.circuit.outputs other.circuit.outputs))
      (simulator.trace .level vectors) (partner.trace .level otherVectors) := by
  induction approximate generalizing simulator partner with
  | nil => exact .nil
  | cons first _ ih =>
      obtain ⟨result, sameNetlist, nextState, outputs⟩ := tick_approximates netlist state first
      refine .cons ⟨result, nextState, outputs⟩ ((ih sameNetlist nextState).imp ?_)
      rintro tick other ⟨laterResult, laterState, laterOutputs⟩
      exact ⟨laterResult, laterState, fun known =>
        laterOutputs (known.imp_right fun before => outputs (Or.inr before))⟩

end Simulator

namespace Simulation

theorem roomAfter_congr {text other : List Char} (length : text.length = other.length)
    (room : Option Nat) : roomAfter text room = roomAfter other room := by
  cases room <;> simp [roomAfter, length]

def Prints (printed exact : Char) : Prop := printed = 'x' ∨ printed = exact

theorem outputLine_prints {levels exact : List Level} (approximate : Approximate levels exact) :
    List.Forall₂ Prints (outputLine levels) (outputLine exact) := by
  refine List.rel_append ?_ (.cons (Or.inr rfl) .nil)
  rw [List.forall₂_map_left_iff, List.forall₂_map_right_iff]
  exact approximate.imp fun _ _ closer => closer.toChar

theorem run_approximates {simulator partner : Simulator}
    (netlist : simulator.netlist = partner.netlist)
    (state : Approximate simulator.state partner.state) (width number : Nat)
    (lines : List StimulusLine) (room : Option Nat) :
    (run width number lines room simulator).result = (run width number lines room partner).result ∧
      List.Forall₂ Prints (run width number lines room simulator).written
        (run width number lines room partner).written := by
  induction lines generalizing simulator partner number room with
  | nil => exact ⟨rfl, .nil⟩
  | cons line rest ih =>
      cases line with
      | undecodable => exact ⟨rfl, .nil⟩
      | text vector =>
          cases read : Stimulus.readVector width vector with
          | error cause => simp [run, read, stop]
          | ok inputs =>
              obtain ⟨result, sameNetlist, nextState, outputs⟩ :=
                Simulator.tick_approximates netlist state (.refl inputs)
              cases ticked : (simulator.tick inputs).result with
              | error cause =>
                  rw [ticked] at result
                  simp [run, read, ticked, ← result]
              | ok done =>
                  have prints := outputLine_prints (outputs (Or.inl ticked))
                  rw [ticked] at result
                  -- Whether a line fits depends on its length alone.
                  simp only [run, read, ticked, ← result, roomAfter_congr prints.length_eq]
                  split
                  · exact ⟨rfl, List.forall₂_take _ prints⟩
                  · obtain ⟨later, laterPrints⟩ := ih sameNetlist nextState _ _
                    exact ⟨later, List.rel_append prints laterPrints⟩

end Simulation

namespace Netlist

def powerUp (netlist : Netlist) (state : List Level) : Simulator :=
  { netlist.simulator with state }

/-- Two runs of one netlist, of which the first knows less of the flip-flops and of the inputs:
their ticks succeed and fail together, and the first knows nothing else of flip-flops and outputs.
So whatever is printed after a power-up of which nothing is known is an x, or is printed whatever
the flip-flops come up with. -/
theorem runs_approximate (netlist : Netlist) :
    (∀ simulator partner : Simulator, simulator.netlist = netlist → partner.netlist = netlist →
        Approximate simulator.state partner.state →
        ∀ vectors otherVectors, List.Forall₂ Approximate vectors otherVectors →
          List.Forall₂ (fun tick other => tick.result = other.result ∧
              Approximate tick.circuit.state other.circuit.state ∧
              (tick.result = .ok () ∨ Approximate simulator.outputs partner.outputs →
                Approximate tick.circuit.outputs other.circuit.outputs))
            (simulator.trace .level vectors) (partner.trace .level otherVectors)) ∧
      ∀ bits : List Bool, bits.length = netlist.flipflops.length → ∀ lines room,
        let exact := Simulation.run netlist.inputs.length 1 lines room
          (netlist.powerUp (bits.map Level.ofBool))
        (netlist.simulate lines room).result = exact.result ∧
          List.Forall₂ Simulation.Prints (netlist.simulate lines room).written exact.written := by
  constructor
  · intro simulator partner simulates partnerSimulates state vectors otherVectors approximate
    exact Simulator.trace_approximates (simulates.trans partnerSimulates.symm) state approximate
  · intro bits length lines room
    have state : Approximate netlist.simulator.state (bits.map Level.ofBool) := by
      have known := Approximate.unknown (bits.map Level.ofBool)
      rw [List.length_map, length] at known
      exact known
    have same : netlist.simulator.netlist = (netlist.powerUp (bits.map Level.ofBool)).netlist := rfl
    exact Simulation.run_approximates same state netlist.inputs.length 1 lines room

def latch : Netlist where
  name := "Latch"
  clocked := true
  inputs := ["S", "R"]
  flipflops := [0]
  outputs := ["Q", "C"]
  assignments := [
    ⟨.flipflop 0, [.signal (.flipflop 0), .signal (.input 0), .gate (.binary .or),
      .signal (.input 1), .gate .not, .gate (.binary .and)]⟩,
    ⟨.output 0, [.signal (.flipflop 0)]⟩,
    ⟨.output 1, [.signal (.output 0), .gate .not, .signal (.input 0), .gate (.binary .and)]⟩]

/-- From its first set on, the latch shows the same whatever it came up with. -/
theorem runs_approximate_latch :
    let lines := [StimulusLine.text ['0', '0'], .text ['1', '0'], .text ['1', '0'],
      .text ['0', '1'], .text ['1', '1']]
    (latch.simulate lines none).written =
        ['x', '0', '\n', 'x', 'x', '\n', '1', '0', '\n', '1', '0', '\n', '0', '1', '\n'] ∧
      List.Forall₂ Simulation.Prints (latch.simulate lines none).written
        (Simulation.run 2 1 lines none (latch.powerUp [.low])).written ∧
      ((latch.powerUp [.unknown]).tick [.unknown, .low]).circuit.outputs = [.unknown, .unknown] ∧
      ((latch.powerUp [.high]).tick [.high, .low]).circuit.outputs = [.high, .low] ∧
      Approximate ((latch.powerUp [.unknown]).tick [.unknown, .low]).circuit.outputs
        ((latch.powerUp [.high]).tick [.high, .low]).circuit.outputs := by
  obtain ⟨runs, printed⟩ := runs_approximate latch
  have ticks := runs (latch.powerUp [.unknown]) (latch.powerUp [.high]) rfl rfl (by decide)
    [[.unknown, .low]] [[.high, .low]] (by decide)
  cases ticks with
  | cons first _ =>
      exact ⟨by decide +kernel, (printed [false] rfl _ none).2, by decide, by decide,
        first.2.2 (Or.inl (by decide))⟩

end Netlist

end GateLevel
