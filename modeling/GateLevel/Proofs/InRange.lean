import GateLevel.Proofs.Failure
import GateLevel.Proofs.Graph.Cones
import GateLevel.Proofs.Lookups
import GateLevel.Proofs.Source.Scope

/-! No position is out of range, from the text to the report: every target has a name and a place,
every node that a walk comes to is there, and everything in a report is declared. -/

namespace GateLevel

variable {σ V : Type}

theorem isSome_mapM {α β : Type} {image : α → Option β} {list : List α}
    (all : ∀ x ∈ list, (image x).isSome) : (list.mapM image).isSome := by
  induction list with
  | nil => rfl
  | cons first rest ih =>
      obtain ⟨value, here⟩ := Option.isSome_iff_exists.mp (all first (by simp))
      obtain ⟨values, later⟩ := Option.isSome_iff_exists.mp
        (ih fun x member => all x (List.mem_cons_of_mem _ member))
      simp [here, later]

structure Tick.InRange (header : Header) (tick : Tick σ V) : Prop where
  named : ∀ target ∈ tick.begun, (header.evaluationRecord? target).isSome
  stored : ∀ target, tick.result ≠ .error (.unknownTarget target)

structure Simulation.InRange (header : Header) (simulation : Simulation) : Prop where
  named : ∀ target ∈ simulation.begun, (header.evaluationRecord? target).isSome
  stored : ∀ line target, simulation.result ≠ .error (.evaluation line (.unknownTarget target))

theorem Settling.mem_begun {meaning : Interpretation σ V} {inputs state : List V}
    {assignments : List Assignment} {settling : Settling σ V} {target : Target}
    (begun : target ∈ (run meaning inputs state assignments settling).2.2) :
    ∃ assignment ∈ assignments, assignment.target = target := by
  induction assignments generalizing settling with
  | nil => simp [run] at begun
  | cons assignment rest ih =>
      simp only [run] at begun
      split at begun
      · exact ⟨assignment, by simp, (List.mem_singleton.mp begun).symm⟩
      · rcases List.mem_cons.mp begun with same | later
        · exact ⟨assignment, by simp, same.symm⟩
        · obtain ⟨other, member, same⟩ := ih later
          exact ⟨other, List.mem_cons_of_mem _ member, same⟩

theorem Circuit.mem_begun {meaning : Interpretation σ V} {inputs : List V} {circuit : Circuit σ V}
    {target : Target} (begun : target ∈ (circuit.tick meaning inputs).begun) :
    ∃ assignment ∈ circuit.netlist.assignments, assignment.target = target := by
  simp only [tick] at begun
  split at begun
  · exact absurd begun List.not_mem_nil
  · have ran : target ∈ (Settling.run meaning inputs circuit.state circuit.netlist.assignments
        ⟨List.replicate circuit.netlist.outputs.length none, circuit.state,
          circuit.context⟩).2.2 := by
      split at begun
      · exact begun
      · split at begun <;> exact begun
    exact Settling.mem_begun ran

namespace Circuit.Runs

variable {netlist : Netlist} {circuit : Circuit σ V}

theorem tick_inRange (runs : circuit.Runs netlist) (orderly : netlist.Orderly)
    (meaning : Interpretation σ V) (inputs : List V) :
    (circuit.tick meaning inputs).InRange netlist.toHeader := by
  constructor
  · intro target begun
    obtain ⟨assignment, member, rfl⟩ := mem_begun begun
    rw [runs.same] at member
    rw [Header.evaluationRecord?, Option.isSome_map, Header.signalName?_isSome_iff]
    exact orderly.targets_declared assignment member
  · intro target failed
    by_cases width : inputs.length = netlist.inputs.length
    · rw [runs.tick_result meaning orderly width] at failed
      rcases stack_error_of_verdictOfAll failed with same | ⟨height, _, same⟩ <;> cases same
    · rw [← runs.same] at width
      simp [Circuit.tick, width] at failed

theorem trace_inRange (runs : circuit.Runs netlist) (orderly : netlist.Orderly)
    (meaning : Interpretation σ V) (vectors : List (List V)) :
    ∀ tick ∈ circuit.trace meaning vectors, tick.InRange netlist.toHeader := by
  induction vectors generalizing circuit with
  | nil => simp [trace]
  | cons inputs rest ih =>
      rw [trace]
      exact List.forall_mem_cons.mpr
        ⟨runs.tick_inRange orderly meaning inputs, ih (runs.tick meaning inputs)⟩

end Circuit.Runs

theorem Simulation.run_inRange {netlist : Netlist} (orderly : netlist.Orderly) (width line : Nat)
    (lines : List StimulusLine) (room : Option Nat) {simulator : Simulator}
    (runs : simulator.Runs netlist) :
    (run width line lines room simulator).InRange netlist.toHeader := by
  induction lines generalizing line room simulator with
  | nil => exact ⟨by simp [run], by simp [run]⟩
  | cons first rest ih =>
      cases first with
      | undecodable => exact ⟨by simp [run, stop], by simp [run, stop]⟩
      | text vector =>
          simp only [run]
          split
          · exact ⟨by simp [stop], by simp [stop]⟩
          · rename_i inputs _
            obtain ⟨named, stored⟩ : (simulator.tick inputs).InRange netlist.toHeader :=
              runs.tick_inRange orderly .level inputs
            split
            · rename_i cause ticked
              refine ⟨named, fun _ target same => stored target ?_⟩
              simp only [Except.error.injEq, SimulationError.evaluation.injEq] at same
              rw [ticked, same.2]
            · split
              · exact ⟨named, by simp⟩
              · rename_i left _
                have later := ih (line + 1) left (runs.tick .level inputs)
                refine ⟨?_, later.stored⟩
                intro target member
                exact (List.mem_append.mp member).elim (named target) (later.named target)

namespace Walker

structure Knows (known : Token → Prop) (walker : Walker) : Prop where
  trail : ∀ token ∈ walker.trail, known token
  sightings : ∀ index trail under, .input index trail under ∈ walker.sightings →
    ∀ token ∈ trail, known token

variable {known : Token → Prop} {roots : Roots} {walker after : Walker}

theorem Knows.pushToken (knows : walker.Knows known) {token : Token} (here : known token) :
    (walker.pushToken token).Knows known :=
  ⟨List.forall_mem_cons.mpr ⟨here, knows.trail⟩, knows.sightings⟩

theorem Knows.popToken (knows : walker.Knows known) : walker.popToken.Knows known :=
  ⟨fun token member => knows.trail token (List.mem_of_mem_tail member), knows.sightings⟩

theorem Knows.meet (knows : walker.Knows known) {token : Token} (here : known token) :
    (walker.meet token).Knows known := by
  have pushed := knows.pushToken here
  rcases token with gate | index | index | index
  · exact pushed
  · refine ⟨pushed.trail, ?_⟩
    intro other trail under member
    rcases List.mem_cons.mp member with same | earlier
    · cases same
      exact pushed.trail
    · exact knows.sightings other trail under earlier
  · exact pushed
  · refine ⟨pushed.trail, ?_⟩
    intro other trail under member
    rcases List.mem_cons.mp member with same | earlier
    · cases same
    · exact knows.sightings other trail under earlier

theorem knows_of_walks (nodes : ∀ id node, roots.arena.node? id = some node → known node.token)
    {ids : List NodeId} (walks : Walks roots ids walker after) (knows : walker.Knows known) :
    after.Knows known := by
  induction walks with
  | nil => exact knows
  | pass node _ _ _ below rest =>
      exact rest (below (knows.meet (nodes _ _ node))).popToken
  | enter node _ _ _ _ _ inside below rest =>
      have pushed := knows.pushToken (nodes _ _ node)
      have entered := inside ⟨pushed.trail, pushed.sightings⟩
      exact rest (below ⟨entered.trail, entered.sightings⟩).popToken

theorem knows_of_walkAll (nodes : ∀ id node, roots.arena.node? id = some node → known node.token)
    {outputs : List Nat} (walked : walkAll roots outputs = .ok after) : after.Knows known := by
  refine walkAll_induction (motive := fun _ walker => walker.Knows known)
    ⟨by simp [start], by simp [start]⟩ ?_ walked
  intro done walker output after knows walked
  obtain ⟨root, inside, _, walks, rfl⟩ := walks_of_walkOutput walked
  have below := knows_of_walks nodes walks ⟨knows.trail, knows.sightings⟩
  exact ⟨below.trail, below.sightings⟩

end Walker

theorem Extremes.known_of_sightings {known : Token → Prop} {sightings : List Sighting}
    (trails : ∀ index trail under, .input index trail under ∈ sightings →
      ∀ token ∈ trail, known token) :
    (∀ token ∈ (ofSightings sightings).longest, known token) ∧
      ∀ token ∈ (ofSightings sightings).shortest, known token := by
  induction sightings with
  | nil => simp [ofSightings, none]
  | cons first rest ih =>
      obtain ⟨longest, shortest⟩ :=
        ih fun index trail under member => trails index trail under (List.mem_cons_of_mem _ member)
      cases first with
      | reuse flipflop under => exact ⟨longest, shortest⟩
      | input index trail under =>
          have here := trails index trail under (List.mem_cons_self ..)
          simp only [ofSightings, record]
          constructor
          · split
            · simpa using here
            · exact longest
          · split
            · simpa using here
            · exact shortest

theorem Header.isSome_pathText? {header : Header} {path : List Token}
    (named : ∀ token ∈ path, (header.tokenName? token).isSome) :
    (header.pathText? path).isSome := by
  rw [pathText?]
  split
  · rfl
  · rw [Option.isSome_map]
    exact isSome_mapM named

namespace Netlist

variable {netlist : Netlist}

theorem isSome_tokenName?_graphTick {id : NodeId} {node : Node}
    (present : netlist.graphTick.circuit.roots.arena.node? id = some node) :
    (netlist.tokenName? node.token).isSome := by
  obtain ⟨_, circuits⟩ := netlist.exists_beside_graphTick
  have fits := circuits.world id node present
  obtain ⟨token, children⟩ := node
  cases token with
  | gate kind => rfl
  | signal source => exact (netlist.signalName?_isSome_iff source).mpr fits.2

theorem Orderly.declares_of_dependsOn (orderly : netlist.Orderly) {reader read : Signal}
    (depends : netlist.DependsOn reader read) : netlist.Declares read := by
  obtain ⟨_, _, assignment, member, _, mentioned⟩ := Relation.TransGen.tail'_iff.mp depends
  exact orderly.operands_declared assignment member read mentioned

theorem isSome_pathText?_of_analyze {analysis : Analysis}
    (analyzed : netlist.analyze = .ok analysis) :
    (netlist.pathText? analysis.extremes.longest).isSome ∧
      (netlist.pathText? analysis.extremes.shortest).isSome := by
  obtain ⟨_, walker, walked, same, _⟩ := exists_walker_of_analyze analyzed
  have knows : walker.Knows fun token => (netlist.tokenName? token).isSome :=
    Walker.knows_of_walkAll (fun _ _ => isSome_tokenName?_graphTick) walked
  obtain ⟨longest, shortest⟩ := Extremes.known_of_sightings knows.sightings
  rw [same]
  exact ⟨Header.isSome_pathText? longest, Header.isSome_pathText? shortest⟩

theorem isSome_coneText?_of_analyze (orderly : netlist.Orderly) {analysis : Analysis}
    (analyzed : netlist.analyze = .ok analysis) {index : Nat}
    (bound : index < netlist.outputs.length) :
    (analysis.coneText? netlist.toHeader index).isSome := by
  have inputs : ((analysis.cone (.output index)).inputs.mapM fun input =>
      netlist.signalName? (.input input)).isSome := by
    have observed : netlist.Observed (.output index) := bound
    refine isSome_mapM fun input member => (netlist.signalName?_isSome_iff _).mpr ?_
    exact orderly.declares_of_dependsOn
      ((mem_cone_iff_of_analyze orderly analyzed observed input).mp member)
  have name : (netlist.signalName? (.output index)).isSome :=
    (netlist.signalName?_isSome_iff (.output index)).mpr bound
  obtain ⟨names, listed⟩ := Option.isSome_iff_exists.mp inputs
  obtain ⟨own, named⟩ := Option.isSome_iff_exists.mp name
  simp [Analysis.coneText?, listed, named]

theorem isSome_report?_of_analyze (orderly : netlist.Orderly) {analysis : Analysis}
    (analyzed : netlist.analyze = .ok analysis) :
    (analysis.report? netlist.toHeader).isSome := by
  obtain ⟨longest, shortest⟩ := isSome_pathText?_of_analyze analyzed
  have cones : ((List.range netlist.outputs.length).mapM
      (analysis.coneText? netlist.toHeader)).isSome :=
    isSome_mapM fun index member =>
      isSome_coneText?_of_analyze orderly analyzed (List.mem_range.mp member)
  obtain ⟨long, longText⟩ := Option.isSome_iff_exists.mp longest
  obtain ⟨short, shortText⟩ := Option.isSome_iff_exists.mp shortest
  obtain ⟨texts, coneTexts⟩ := Option.isSome_iff_exists.mp cones
  simp [Analysis.report?, longText, shortText, coneTexts]

/-- Nothing that is looked up by position is missing: not in the ticks of a simulator or of a graph
circuit, over vectors of any width, not in a simulation, and not in the analysis and its report. -/
structure InRange (netlist : Netlist) : Prop where
  simulated : ∀ vectors, ∀ tick ∈ netlist.simulator.trace .level vectors,
    tick.InRange netlist.toHeader
  drawn : ∀ arena vectors, ∀ tick ∈ (netlist.graphCircuit arena).trace .graph vectors,
    tick.InRange netlist.toHeader
  streamed : ∀ lines room, (netlist.simulate lines room).InRange netlist.toHeader
  walked : ∀ fault, netlist.analyze ≠ .error (.walk fault)
  rendered : ∀ analysis, netlist.analyze = .ok analysis →
    (netlist.pathText? analysis.extremes.longest).isSome ∧
      (netlist.pathText? analysis.extremes.shortest).isSome
  reported : ∀ analysis, netlist.analyze = .ok analysis →
    (analysis.report? netlist.toHeader).isSome

theorem Orderly.inRange (orderly : netlist.Orderly) : netlist.InRange where
  simulated := netlist.simulator_runs.trace_inRange orderly .level
  drawn arena := (netlist.graphCircuit_runs arena).trace_inRange orderly .graph
  streamed lines room := Simulation.run_inRange orderly _ 1 lines room netlist.simulator_runs
  walked fault failed := by
    obtain ⟨error, same, _⟩ := (netlist.analyze_eq_error_iff _).mp failed
    cases same
  rendered _ analyzed := isSome_pathText?_of_analyze analyzed
  reported _ analyzed := isSome_report?_of_analyze orderly analyzed

end Netlist

/-- No look-up by position fails: resolving a declaration and reading a text give by way of
look-ups what they give without, and nothing that is done with a resolved netlist meets a position
out of range. -/
theorem lookups_in_range :
    (∀ declaration : Declaration, declaration.resolveByLookup = answered declaration.resolve) ∧
      (∀ text, Source.readNetlistByLookup text = answered (Source.readNetlist text)) ∧
      ∀ (declaration : Declaration) (netlist : Netlist), declaration.resolve = .ok netlist →
        netlist.InRange :=
  ⟨Declaration.resolveByLookup_eq, Source.readNetlistByLookup_eq,
    fun _ _ resolved => (Declaration.orderly_of_resolve resolved).inRange⟩

theorem lookups_in_range_ring :
    Declaration.ring.resolveByLookup = answered (.ok .ring) ∧
      Declaration.ring.resolve = .ok .ring ∧ Netlist.ring.InRange := by
  have resolved : Declaration.ring.resolve = .ok .ring := by decide +kernel
  obtain ⟨looked, _, inRange⟩ := lookups_in_range
  exact ⟨(looked .ring).trans (by rw [resolved]), resolved, inRange _ _ resolved⟩

end GateLevel
