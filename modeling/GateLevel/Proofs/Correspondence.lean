import GateLevel.Circuit
import Mathlib.Data.List.Forall2

/-! Two interpretations of the gates that respect a relation between their values keep every
tick of the two circuits over one netlist in that relation, failures included. -/

namespace GateLevel

variable {σ τ V W : Type}

inductive Matched {ε V W : Type} (related : V → W → Prop) : Except ε V → Except ε W → Prop
  | error (cause : ε) : Matched related (.error cause) (.error cause)
  | ok {value : V} {other : W} : related value other → Matched related (.ok value) (.ok other)

namespace Matched

variable {ε V' W' : Type} {related : V → W → Prop} {first : Except ε V} {second : Except ε W}

theorem mono {wider : V → W → Prop} (matched : Matched related first second)
    (included : ∀ value other, related value other → wider value other) :
    Matched wider first second := by
  cases matched with
  | error cause => exact .error cause
  | ok holds => exact .ok (included _ _ holds)

theorem bind {later : V' → W' → Prop} {next : V → Except ε V'} {nextOther : W → Except ε W'}
    (matched : Matched related first second)
    (following : ∀ value other, related value other →
      Matched later (next value) (nextOther other)) :
    Matched later (first >>= next) (second >>= nextOther) := by
  cases matched with
  | error cause => exact .error cause
  | ok holds => exact following _ _ holds

end Matched

/-- Values of two interpretations that the gates keep related. The relation may grow with the
contexts, of which `World` says what they always satisfy. -/
structure Correspondence (first : Interpretation σ V) (second : Interpretation τ W) where
  World : σ → τ → Prop
  Related : σ → τ → V → W → Prop
  invert {context other value partner} : World context other → Related context other value partner →
    World (first.invert value context).2 (second.invert partner other).2 ∧
      (∀ a b, Related context other a b →
        Related (first.invert value context).2 (second.invert partner other).2 a b) ∧
      Related (first.invert value context).2 (second.invert partner other).2
        (first.invert value context).1 (second.invert partner other).1
  combine (gate : BinaryGate) {context other last lastPartner front frontPartner} :
    World context other →
    Related context other last lastPartner → Related context other front frontPartner →
    World (first.combine gate last front context).2
        (second.combine gate lastPartner frontPartner other).2 ∧
      (∀ a b, Related context other a b →
        Related (first.combine gate last front context).2
          (second.combine gate lastPartner frontPartner other).2 a b) ∧
      Related (first.combine gate last front context).2
        (second.combine gate lastPartner frontPartner other).2
        (first.combine gate last front context).1
        (second.combine gate lastPartner frontPartner other).1

namespace Correspondence

variable {first : Interpretation σ V} {second : Interpretation τ W}
  (correspondence : Correspondence first second)

structure Evolves (context : σ) (other : τ) (later : σ) (laterOther : τ) : Prop where
  world : correspondence.World later laterOther
  keeps : ∀ value partner, correspondence.Related context other value partner →
    correspondence.Related later laterOther value partner

variable {correspondence}

theorem Evolves.refl {context : σ} {other : τ} (world : correspondence.World context other) :
    correspondence.Evolves context other context other :=
  ⟨world, fun _ _ related => related⟩

theorem Evolves.trans {context later last : σ} {other laterOther lastOther : τ}
    (front : correspondence.Evolves context other later laterOther)
    (back : correspondence.Evolves later laterOther last lastOther) :
    correspondence.Evolves context other last lastOther :=
  ⟨back.world, fun value partner related => back.keeps _ _ (front.keeps value partner related)⟩

variable (correspondence)

abbrev Stacks (context : σ) (other : τ) : List V → List W → Prop :=
  List.Forall₂ (correspondence.Related context other)

variable {correspondence}

theorem operate_matched (gate : Gate) {stack : List V} {partners : List W} {context : σ}
    {other : τ} (world : correspondence.World context other)
    (paired : correspondence.Stacks context other stack partners) :
    correspondence.Evolves context other (first.operate gate stack context).2
        (second.operate gate partners other).2 ∧
      Matched (correspondence.Stacks (first.operate gate stack context).2
          (second.operate gate partners other).2)
        (first.operate gate stack context).1 (second.operate gate partners other).1 := by
  have underflow : correspondence.Evolves context other context other ∧
      Matched (correspondence.Stacks context other) (.error EvalError.stackUnderflow)
        (.error EvalError.stackUnderflow) :=
    ⟨.refl world, .error _⟩
  cases gate with
  | not =>
      cases paired with
      | nil => exact underflow
      | cons top rest =>
          obtain ⟨later, keeps, result⟩ := correspondence.invert world top
          exact ⟨⟨later, keeps⟩, .ok (.cons result (rest.imp keeps))⟩
  | binary gate =>
      cases paired with
      | nil => exact underflow
      | cons last rest =>
          cases rest with
          | nil => exact underflow
          | cons front rest =>
              obtain ⟨later, keeps, result⟩ :=
                correspondence.combine gate world last front
              exact ⟨⟨later, keeps⟩, .ok (.cons result (rest.imp keeps))⟩

theorem execute_matched {scope : Scope V} {partner : Scope W} (tokens : List Token)
    {stack : List V} {partners : List W} {context : σ} {other : τ}
    (world : correspondence.World context other)
    (reads : ∀ signal, Matched (correspondence.Related context other) (scope.read signal)
      (partner.read signal))
    (paired : correspondence.Stacks context other stack partners) :
    correspondence.Evolves context other (first.execute scope tokens stack context).2
        (second.execute partner tokens partners other).2 ∧
      Matched (correspondence.Stacks (first.execute scope tokens stack context).2
          (second.execute partner tokens partners other).2)
        (first.execute scope tokens stack context).1
        (second.execute partner tokens partners other).1 := by
  induction tokens generalizing stack partners context other with
  | nil => exact ⟨.refl world, .ok paired⟩
  | cons token rest ih =>
      cases token with
      | signal signal =>
          have read := reads signal
          simp only [Interpretation.execute]
          cases found : scope.read signal with
          | error cause =>
              rw [found] at read
              cases same : partner.read signal <;> rw [same] at read <;> cases read
              exact ⟨.refl world, .error _⟩
          | ok value =>
              rw [found] at read
              cases same : partner.read signal <;> rw [same] at read <;> cases read
              rename_i related
              exact ih world reads (.cons related paired)
      | gate gate =>
          obtain ⟨evolves, matched⟩ := operate_matched gate world paired
          simp only [Interpretation.execute]
          rcases one : first.operate gate stack context with ⟨result, later⟩
          rcases two : second.operate gate partners other with ⟨otherResult, laterOther⟩
          simp only [one, two] at evolves matched
          cases matched with
          | error cause => exact ⟨evolves, .error cause⟩
          | ok nextStacks =>
              obtain ⟨more, result⟩ := ih evolves.world
                (fun signal => (reads signal).mono evolves.keeps) nextStacks
              exact ⟨evolves.trans more, result⟩

theorem evaluate_matched {scope : Scope V} {partner : Scope W} (expression : List Token)
    {context : σ} {other : τ} (world : correspondence.World context other)
    (reads : ∀ signal, Matched (correspondence.Related context other) (scope.read signal)
      (partner.read signal)) :
    correspondence.Evolves context other (first.evaluate scope expression context).2
        (second.evaluate partner expression other).2 ∧
      Matched (correspondence.Related (first.evaluate scope expression context).2
          (second.evaluate partner expression other).2)
        (first.evaluate scope expression context).1
        (second.evaluate partner expression other).1 := by
  obtain ⟨evolves, matched⟩ :=
    execute_matched expression world reads .nil
  simp only [Interpretation.evaluate]
  rcases one : first.execute scope expression [] context with ⟨result, later⟩
  rcases two : second.execute partner expression [] other with ⟨otherResult, laterOther⟩
  simp only [one, two] at evolves matched
  cases matched with
  | error cause => exact ⟨evolves, .error cause⟩
  | ok paired =>
      refine ⟨evolves, ?_⟩
      cases paired with
      | nil => exact .error _
      | cons top rest =>
          cases rest with
          | nil => exact .ok top
          | cons next rest =>
              simp only [Interpretation.single, List.length_cons, rest.length_eq]
              exact .error _

theorem rel_getElem? {related : V → W → Prop} {values : List V} {partners : List W}
    (both : List.Forall₂ related values partners) (index : Nat) :
    Option.Rel related values[index]? partners[index]? := by
  induction both generalizing index with
  | nil => exact .none
  | cons head _ ih =>
      cases index with
      | zero => exact .some head
      | succ index => exact ih index

theorem read_matched {related : V → W → Prop} {inputs state : List V}
    {otherInputs otherState : List W} {outputs : List (Option V)}
    {otherOutputs : List (Option W)} (inputsRelated : List.Forall₂ related inputs otherInputs)
    (stateRelated : List.Forall₂ related state otherState)
    (outputsRelated : List.Forall₂ (Option.Rel related) outputs otherOutputs)
    (signal : Signal) :
    Matched related (Scope.read ⟨inputs, state, outputs⟩ signal)
      (Scope.read ⟨otherInputs, otherState, otherOutputs⟩ signal) := by
  cases signal with
  | input index =>
      have found := rel_getElem? inputsRelated index
      simp only [Scope.read]
      generalize inputs[index]? = one, otherInputs[index]? = two at found ⊢
      cases found with
      | none => exact .error _
      | some holds => exact .ok holds
  | flipflop index =>
      have found := rel_getElem? stateRelated index
      simp only [Scope.read]
      generalize state[index]? = one, otherState[index]? = two at found ⊢
      cases found with
      | none => exact .error _
      | some holds => exact .ok holds
  | output index =>
      have found := rel_getElem? outputsRelated index
      simp only [Scope.read]
      generalize outputs[index]? = one, otherOutputs[index]? = two at found ⊢
      cases found with
      | none => exact .error _
      | some driven =>
          cases driven with
          | none => exact .error _
          | some holds => exact .ok holds

variable (correspondence)

structure Settlings (settling : Settling σ V) (partner : Settling τ W) : Prop where
  world : correspondence.World settling.context partner.context
  outputs : List.Forall₂ (Option.Rel (correspondence.Related settling.context partner.context))
    settling.outputs partner.outputs
  next : List.Forall₂ (correspondence.Related settling.context partner.context)
    settling.next partner.next

variable {correspondence}

theorem rel_mono {related wider : V → W → Prop} {value : Option V} {partner : Option W}
    (included : ∀ a b, related a b → wider a b) (both : Option.Rel related value partner) :
    Option.Rel wider value partner := by
  cases both with
  | none => exact .none
  | some holds => exact .some (included _ _ holds)

theorem Settlings.evolve {settling : Settling σ V} {partner : Settling τ W}
    (settlings : correspondence.Settlings settling partner) {later : σ} {laterOther : τ}
    (evolves : correspondence.Evolves settling.context partner.context later laterOther) :
    correspondence.Settlings { settling with context := later }
      { partner with context := laterOther } :=
  ⟨evolves.world, settlings.outputs.imp fun _ _ => rel_mono evolves.keeps,
    settlings.next.imp evolves.keeps⟩

theorem forall₂_set {related : V → W → Prop} {values : List V} {partners : List W}
    (both : List.Forall₂ related values partners) {value : V} {partner : W}
    (holds : related value partner) (index : Nat) :
    List.Forall₂ related (values.set index value) (partners.set index partner) := by
  induction both generalizing index with
  | nil => exact .nil
  | cons head rest ih =>
      cases index with
      | zero => exact .cons holds rest
      | succ index => exact .cons head (ih index)

theorem Settlings.store {settling : Settling σ V} {partner : Settling τ W}
    (settlings : correspondence.Settlings settling partner) (target : Target) {value : V}
    {other : W} (holds : correspondence.Related settling.context partner.context value other) :
    Option.Rel (fun later laterPartner => correspondence.Settlings later laterPartner ∧
        later.context = settling.context ∧ laterPartner.context = partner.context)
      (settling.store target value) (partner.store target other) := by
  cases target with
  | output index =>
      have same := settlings.outputs.length_eq
      simp only [Settling.store, same]
      split
      · exact .some ⟨⟨settlings.world, forall₂_set settlings.outputs (.some holds) index,
          settlings.next⟩, rfl, rfl⟩
      · exact .none
  | flipflop index =>
      have same := settlings.next.length_eq
      simp only [Settling.store, same]
      split
      · exact .some ⟨⟨settlings.world, settlings.outputs,
          forall₂_set settlings.next holds index⟩, rfl, rfl⟩
      · exact .none

theorem assign_matched {inputs state : List V} {otherInputs otherState : List W}
    (assignment : Assignment) {settling : Settling σ V} {partner : Settling τ W}
    (settlings : correspondence.Settlings settling partner)
    (inputsRelated : List.Forall₂ (correspondence.Related settling.context partner.context)
      inputs otherInputs)
    (stateRelated : List.Forall₂ (correspondence.Related settling.context partner.context)
      state otherState) :
    (settling.assign first inputs state assignment).1 =
        (partner.assign second otherInputs otherState assignment).1 ∧
      correspondence.Settlings (settling.assign first inputs state assignment).2
        (partner.assign second otherInputs otherState assignment).2 ∧
      correspondence.Evolves settling.context partner.context
        (settling.assign first inputs state assignment).2.context
        (partner.assign second otherInputs otherState assignment).2.context := by
  obtain ⟨evolves, matched⟩ := evaluate_matched assignment.expression
    settlings.world (read_matched inputsRelated stateRelated settlings.outputs)
  simp only [Settling.assign]
  generalize first.evaluate ⟨inputs, state, settling.outputs⟩ assignment.expression
    settling.context = one, second.evaluate ⟨otherInputs, otherState, partner.outputs⟩
    assignment.expression partner.context = two at evolves matched ⊢
  obtain ⟨result, later⟩ := one
  obtain ⟨otherResult, laterOther⟩ := two
  have evolved := settlings.evolve evolves
  cases matched with
  | error cause => exact ⟨rfl, evolved, evolves⟩
  | @ok value other holds =>
      have stored := evolved.store assignment.target holds
      simp only
      generalize Settling.store { settling with context := later } assignment.target value = one,
        Settling.store { partner with context := laterOther } assignment.target other = two
        at stored ⊢
      cases stored with
      | none => exact ⟨rfl, evolved, evolves⟩
      | some holds =>
          refine ⟨rfl, holds.1, ?_⟩
          rw [holds.2.1, holds.2.2]
          exact evolves

theorem run_matched {inputs state : List V} {otherInputs otherState : List W}
    (assignments : List Assignment) {settling : Settling σ V} {partner : Settling τ W}
    (settlings : correspondence.Settlings settling partner)
    (inputsRelated : List.Forall₂ (correspondence.Related settling.context partner.context)
      inputs otherInputs)
    (stateRelated : List.Forall₂ (correspondence.Related settling.context partner.context)
      state otherState) :
    (settling.run first inputs state assignments).1 =
        (partner.run second otherInputs otherState assignments).1 ∧
      (settling.run first inputs state assignments).2.2 =
        (partner.run second otherInputs otherState assignments).2.2 ∧
      correspondence.Settlings (settling.run first inputs state assignments).2.1
        (partner.run second otherInputs otherState assignments).2.1 ∧
      correspondence.Evolves settling.context partner.context
        (settling.run first inputs state assignments).2.1.context
        (partner.run second otherInputs otherState assignments).2.1.context := by
  induction assignments generalizing settling partner with
  | nil => exact ⟨rfl, rfl, settlings, .refl settlings.world⟩
  | cons assignment rest ih =>
      obtain ⟨same, settled, evolves⟩ := assign_matched assignment settlings
        inputsRelated stateRelated
      simp only [Settling.run]
      generalize settling.assign first inputs state assignment = one,
        partner.assign second otherInputs otherState assignment = two at same settled evolves ⊢
      obtain ⟨result, later⟩ := one
      obtain ⟨otherResult, laterPartner⟩ := two
      simp only at same settled evolves
      subst same
      cases result with
      | error cause => exact ⟨rfl, rfl, settled, evolves⟩
      | ok done =>
          obtain ⟨results, begun, final, more⟩ := ih settled (inputsRelated.imp evolves.keeps)
            (stateRelated.imp evolves.keeps)
          exact ⟨results, by simp only [begun], final, evolves.trans more⟩

theorem drivenFrom_matched {related : V → W → Prop} {outputs : List (Option V)}
    {partners : List (Option W)} (both : List.Forall₂ (Option.Rel related) outputs partners)
    (position : Nat) :
    Matched (List.Forall₂ related) (Settling.drivenFrom position outputs)
      (Settling.drivenFrom position partners) := by
  induction both generalizing position with
  | nil => exact .ok .nil
  | @cons output partner rest others head _ ih =>
      cases head with
      | none => exact .error _
      | some holds =>
          have later := ih (position + 1)
          simp only [Settling.drivenFrom, bind, Except.bind]
          generalize Settling.drivenFrom (position + 1) rest = one,
            Settling.drivenFrom (position + 1) others = two at later ⊢
          cases later with
          | error cause => exact .error cause
          | ok values => exact .ok (.cons holds values)

variable (correspondence)

structure Circuits (circuit : Circuit σ V) (partner : Circuit τ W) : Prop where
  netlist : circuit.netlist = partner.netlist
  world : correspondence.World circuit.context partner.context
  state : List.Forall₂ (correspondence.Related circuit.context partner.context)
    circuit.state partner.state
  outputs : List.Forall₂ (correspondence.Related circuit.context partner.context)
    circuit.outputs partner.outputs

variable {correspondence}

theorem Circuits.evolve {circuit : Circuit σ V} {partner : Circuit τ W}
    (circuits : correspondence.Circuits circuit partner) {later : σ} {laterOther : τ}
    (evolves : correspondence.Evolves circuit.context partner.context later laterOther) :
    correspondence.Circuits { circuit with context := later }
      { partner with context := laterOther } :=
  ⟨circuits.netlist, evolves.world, circuits.state.imp evolves.keeps,
    circuits.outputs.imp evolves.keeps⟩

theorem forall₂_replicate_none (related : V → W → Prop) (count : Nat) :
    List.Forall₂ (Option.Rel related) (List.replicate count none) (List.replicate count none) := by
  induction count with
  | zero => exact .nil
  | succ count ih => exact .cons .none ih

/-- Ticks over related values have the same result and leave related values behind. -/
theorem Circuits.tick {circuit : Circuit σ V} {partner : Circuit τ W}
    (circuits : correspondence.Circuits circuit partner) {inputs : List V}
    {otherInputs : List W}
    (inputsRelated : List.Forall₂ (correspondence.Related circuit.context partner.context)
      inputs otherInputs) :
    (circuit.tick first inputs).result = (partner.tick second otherInputs).result ∧
      (circuit.tick first inputs).begun = (partner.tick second otherInputs).begun ∧
      correspondence.Circuits (circuit.tick first inputs).circuit
        (partner.tick second otherInputs).circuit := by
  obtain ⟨netlist, context, state, outputs⟩ := circuit
  obtain ⟨otherNetlist, otherContext, otherState, otherOutputs⟩ := partner
  have one : netlist = otherNetlist := circuits.netlist
  subst one
  have start : correspondence.Settlings
      ⟨List.replicate netlist.outputs.length none, state, context⟩
      ⟨List.replicate netlist.outputs.length none, otherState, otherContext⟩ :=
    ⟨circuits.world, forall₂_replicate_none _ _, circuits.state⟩
  obtain ⟨same, begun, settled, evolves⟩ :=
    run_matched netlist.assignments start inputsRelated circuits.state
  simp only [Circuit.tick, inputsRelated.length_eq]
  split
  · exact ⟨rfl, rfl, circuits⟩
  · generalize Settling.run first inputs state netlist.assignments _ = one,
      Settling.run second otherInputs otherState netlist.assignments _ = two
      at same begun settled evolves ⊢
    obtain ⟨result, final, targets⟩ := one
    obtain ⟨otherResult, otherFinal, otherTargets⟩ := two
    simp only at same begun settled evolves
    subst same begun
    have evolved := circuits.evolve evolves
    cases result with
    | error cause => exact ⟨rfl, rfl, evolved⟩
    | ok done =>
        have driven := drivenFrom_matched settled.outputs 0
        simp only
        generalize Settling.drivenFrom 0 final.outputs = one,
          Settling.drivenFrom 0 otherFinal.outputs = two at driven ⊢
        cases driven with
        | error cause => exact ⟨rfl, rfl, evolved⟩
        | ok outputs => exact ⟨rfl, rfl, circuits.netlist, settled.world, settled.next, outputs⟩

def any (first : Interpretation σ V) (second : Interpretation τ W) :
    Correspondence first second where
  World _ _ := True
  Related _ _ _ _ := True
  invert := fun _ _ => ⟨trivial, fun _ _ _ => trivial, trivial⟩
  combine := by
    intros
    exact ⟨trivial, fun _ _ _ => trivial, trivial⟩

end Correspondence

/-- Whether a tick succeeds does not depend on what the gates do, nor on any values. -/
theorem Circuit.tick_result_congr (first : Interpretation σ V) (second : Interpretation τ W)
    {circuit : Circuit σ V} {partner : Circuit τ W} {inputs : List V} {otherInputs : List W}
    (netlist : circuit.netlist = partner.netlist)
    (state : circuit.state.length = partner.state.length)
    (outputs : circuit.outputs.length = partner.outputs.length)
    (width : inputs.length = otherInputs.length) :
    (circuit.tick first inputs).result = (partner.tick second otherInputs).result := by
  have related {values : List V} {partners : List W} (same : values.length = partners.length) :
      List.Forall₂ ((Correspondence.any first second).Related circuit.context partner.context)
        values partners :=
    List.forall₂_iff_zip.mpr ⟨same, fun _ => trivial⟩
  have circuits : (Correspondence.any first second).Circuits circuit partner :=
    ⟨netlist, trivial, related state, related outputs⟩
  exact (circuits.tick (related width)).1

end GateLevel
