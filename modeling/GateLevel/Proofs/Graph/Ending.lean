import GateLevel.Proofs.Graph.Unfolding
import GateLevel.Proofs.Graph.Traversal
import GateLevel.Graph.Analysis

/-! Every walk ends within its bound where children come before their parents, so that the analysis
of a netlist can only fail with an error of the tick that builds the graph. -/

namespace GateLevel

/-- Children come before their parents, and all that a walk looks up is there. -/
structure Roots.Grounded (roots : Roots) : Prop where
  descending : ∀ id node, roots.arena.node? id = some node → ∀ child ∈ node.children, child < id
  flipflops_declared : ∀ id index children,
    roots.arena.node? id = some ⟨.signal (.flipflop index), children⟩ →
      index < roots.flipflops.length
  outputs_present : ∀ root ∈ roots.outputs, root < roots.arena.size
  flipflops_present : ∀ root ∈ roots.flipflops, root < roots.arena.size

namespace Walker

structure Counted (roots : Roots) (walker : Walker) : Prop where
  nodup : walker.entered.Nodup
  bounded : ∀ index ∈ walker.entered, index < roots.flipflops.length

def reserve (roots : Roots) (id : NodeId) (walker : Walker) : Nat :=
  roots.arena.size * (roots.flipflops.length - walker.entered.length) + id

def Ends (roots : Roots) (walker : Walker) (walked : Except WalkFault Walker) : Prop :=
  ∃ after, walked = .ok after ∧ after.Counted roots ∧
    walker.entered.length ≤ after.entered.length

variable {roots : Roots} {walker : Walker}

theorem Counted.descend (counted : walker.Counted roots) {index : Nat}
    (fresh : index ∉ walker.entered) (bound : index < roots.flipflops.length) :
    (walker.descend index).Counted roots := by
  refine ⟨List.nodup_cons.mpr ⟨fresh, counted.nodup⟩, ?_⟩
  intro other member
  rcases List.mem_cons.mp member with rfl | earlier
  · exact bound
  · exact counted.bounded other earlier

theorem Counted.length_le (counted : walker.Counted roots) :
    walker.entered.length ≤ roots.flipflops.length := by
  have subset : walker.entered ⊆ List.range roots.flipflops.length :=
    fun index member => List.mem_range.mpr (counted.bounded index member)
  simpa using counted.nodup.length_le_of_subset subset

theorem reserve_le_of_length_le {after : Walker}
    (grown : walker.entered.length ≤ after.entered.length) (id : NodeId) :
    after.reserve roots id ≤ walker.reserve roots id :=
  Nat.add_le_add_right (Nat.mul_le_mul_left _ (Nat.sub_le_sub_left grown _)) id

theorem reserve_lt_of_child {child id : NodeId} (below : child < id) :
    walker.reserve roots child < walker.reserve roots id :=
  Nat.add_lt_add_left below _

/-- Going through a flip-flop spends what the trail may gain between two of them. -/
theorem reserve_descend_lt (counted : walker.Counted roots) {index : Nat}
    (fresh : index ∉ walker.entered) (bound : index < roots.flipflops.length)
    {root : NodeId} (present : root < roots.arena.size) (id : NodeId) :
    (walker.descend index).reserve roots root < walker.reserve roots id := by
  have room := (counted.descend fresh bound).length_le
  have length : (walker.descend index).entered.length = walker.entered.length + 1 := rfl
  obtain ⟨rest, same⟩ : ∃ rest, roots.flipflops.length = walker.entered.length + 1 + rest :=
    Nat.exists_eq_add_of_le (length ▸ room)
  have more : walker.entered.length + 1 + rest - walker.entered.length = rest + 1 := by omega
  simp only [reserve, length, same, Nat.add_sub_cancel_left, more, Nat.mul_succ]
  exact Nat.lt_of_lt_of_le (Nat.add_lt_add_left present _) (Nat.le_add_right _ id)

theorem foldlM_ends {depth : Nat} {id : NodeId}
    (single : ∀ child (walker : Walker), walker.Counted roots → child < id →
      walker.reserve roots child < depth → walker.Ends roots (walk roots depth child walker))
    {children : List NodeId} (below : ∀ child ∈ children, child < id)
    (counted : walker.Counted roots) (enough : walker.reserve roots id ≤ depth) :
    walker.Ends roots
      (children.foldlM (fun walker child => walk roots depth child walker) walker) := by
  induction children generalizing walker with
  | nil => exact ⟨walker, rfl, counted, Nat.le_refl _⟩
  | cons child rest ih =>
      have earlier := below child (by simp)
      obtain ⟨middle, walked, middleCounted, grown⟩ := single child walker counted earlier
        (Nat.lt_of_lt_of_le (reserve_lt_of_child earlier) enough)
      obtain ⟨after, rested, afterCounted, more⟩ :=
        ih (fun other member => below other (List.mem_cons_of_mem _ member)) middleCounted
          (Nat.le_trans (reserve_le_of_length_le grown id) enough)
      refine ⟨after, ?_, afterCounted, Nat.le_trans grown more⟩
      simp only [List.foldlM_cons, walked, bind, Except.bind, rested]

theorem walk_ends (grounded : roots.Grounded) {depth : Nat} {id : NodeId}
    (counted : walker.Counted roots) (present : id < roots.arena.size)
    (enough : walker.reserve roots id < depth) :
    walker.Ends roots (walk roots depth id walker) := by
  induction depth generalizing id walker with
  | zero => omega
  | succ depth ih =>
      obtain ⟨⟨token, children⟩, found⟩ := (roots.arena.lt_size_iff id).mp present
      have below := grounded.descending id _ found
      have fold : ∀ start : Walker, start.Counted roots →
          walker.entered.length ≤ start.entered.length → start.Ends roots
            (children.foldlM (fun walker child => walk roots depth child walker) start) := by
        intro start startCounted grown
        refine foldlM_ends ?_ below startCounted
          (Nat.le_trans (reserve_le_of_length_le grown id) (Nat.le_of_lt_succ enough))
        intro child other otherCounted earlier room
        exact ih otherCounted (Nat.lt_trans earlier present) room
      have passed : ∀ start : Walker, start.entered = walker.entered → walker.Ends roots
          ((children.foldlM (fun walker child => walk roots depth child walker) start).map
            popToken) := by
        intro start same
        obtain ⟨after, folded, afterCounted, grown⟩ :=
          fold start ⟨same ▸ counted.nodup, same ▸ counted.bounded⟩ (by rw [same])
        exact ⟨after.popToken, by rw [folded]; rfl, ⟨afterCounted.nodup, afterCounted.bounded⟩,
          same ▸ grown⟩
      rcases token with gate | index | index | index
      · have done := passed (walker.pushToken (.gate gate)) rfl
        simp only [walk, found, bind, Except.bind, pure, Except.pure]
        exact done
      · have done := passed ((walker.pushToken (.signal (.input index))).sightInput index) rfl
        simp only [walk, found, bind, Except.bind, pure, Except.pure]
        exact done
      · have done := passed (walker.pushToken (.signal (.output index))) rfl
        simp only [walk, found, bind, Except.bind, pure, Except.pure]
        exact done
      · have bound := grounded.flipflops_declared id index children found
        simp only [walk, found, bind, Except.bind, pure, Except.pure, List.contains_iff_mem]
        by_cases entered : index ∈ walker.entered
        · have done := passed
            ((walker.pushToken (.signal (.flipflop index))).sightReuse index) rfl
          rw [if_pos (show index ∈ (walker.pushToken _).entered from entered)]
          exact done
        · rw [if_neg (show index ∉ (walker.pushToken _).entered from entered),
            List.getElem?_eq_getElem bound]
          have present := grounded.flipflops_present _ (List.getElem_mem bound)
          have pushed : (walker.pushToken (.signal (.flipflop index))).Counted roots :=
            ⟨counted.nodup, counted.bounded⟩
          obtain ⟨inside, walked, insideCounted, grown⟩ := ih (pushed.descend entered bound) present
            (Nat.lt_of_lt_of_le (reserve_descend_lt pushed entered bound present id)
              (Nat.le_of_lt_succ enough))
          obtain ⟨below, folded, belowCounted, more⟩ := fold inside.popTarget
            ⟨insideCounted.nodup, insideCounted.bounded⟩ (Nat.le_trans (Nat.le_succ _) grown)
          refine ⟨below.popToken, ?_, ⟨belowCounted.nodup, belowCounted.bounded⟩,
            Nat.le_trans (Nat.le_trans (Nat.le_succ _) grown) more⟩
          rw [descend] at walked
          simp only [walked, folded]

theorem reserve_lt_depthBound (walker : Walker) {id : NodeId} (present : id < roots.arena.size) :
    walker.reserve roots id < depthBound roots := by
  have least : walker.reserve roots id ≤ start.reserve roots id :=
    reserve_le_of_length_le (Nat.zero_le _) _
  simp only [depthBound, Nat.mul_succ]
  exact Nat.lt_succ_of_le (Nat.le_trans least (Nat.add_le_add_left (Nat.le_of_lt present) _))

theorem walkOutput_ends (grounded : roots.Grounded) (counted : walker.Counted roots) {index : Nat}
    (bound : index < roots.outputs.length) :
    walker.Ends roots (walker.walkOutput roots index) := by
  have present := grounded.outputs_present _ (List.getElem_mem bound)
  have pushed : (walker.pushTarget (.output index)).Counted roots :=
    ⟨counted.nodup, counted.bounded⟩
  obtain ⟨after, walked, afterCounted, grown⟩ :=
    walk_ends grounded pushed present (reserve_lt_depthBound _ present)
  refine ⟨after.popTarget, ?_, ⟨afterCounted.nodup, afterCounted.bounded⟩, grown⟩
  simp only [walkOutput, List.getElem?_eq_getElem bound, walked, bind, Except.bind, pure,
    Except.pure]

theorem exists_walkAll (grounded : roots.Grounded) {outputs : List Nat}
    (bound : ∀ index ∈ outputs, index < roots.outputs.length) :
    ∃ after, walkAll roots outputs = .ok after := by
  suffices general : ∀ walker : Walker, walker.Counted roots →
      ∃ after, outputs.foldlM (fun walker index => walker.walkOutput roots index) walker =
        .ok after from general start ⟨List.nodup_nil, by simp [start]⟩
  induction outputs with
  | nil => exact fun walker _ => ⟨walker, rfl⟩
  | cons index rest ih =>
      intro walker counted
      obtain ⟨middle, walked, middleCounted, _⟩ :=
        walkOutput_ends grounded counted (bound index (by simp))
      obtain ⟨after, rested⟩ :=
        ih (fun other member => bound other (List.mem_cons_of_mem _ member)) middle middleCounted
      exact ⟨after, by simp only [List.foldlM_cons, walked, bind, Except.bind, rested]⟩

end Walker

namespace Netlist

variable {netlist : Netlist}

/-- Beside the tick that builds the graph runs one of a simulator. -/
theorem exists_beside_graphTick (netlist : Netlist) : ∃ simulator,
    (unfolding netlist.Declares fun _ => .unknown).Circuits netlist.graphTick.circuit
      simulator :=
  ⟨_, ((unfolding_plants netlist.Declares fun _ => .unknown).graphTick
    (fun _ declared => declared) (Arena.proper_empty _)).2⟩

theorem graphTick_runs (netlist : Netlist) : netlist.graphTick.circuit.Runs netlist :=
  (netlist.graphCircuit_runs _).tick .graph _

theorem graphTick_grounded (ticked : netlist.graphTick.result = .ok ()) :
    netlist.graphTick.circuit.roots.Grounded ∧
      netlist.graphTick.circuit.roots.outputs.length = netlist.outputs.length := by
  obtain ⟨_, after⟩ := netlist.exists_beside_graphTick
  refine ⟨⟨?_, ?_, Arena.lt_size_of_carry after.outputs, Arena.lt_size_of_carry after.state⟩,
    Circuit.tick_outputs_length ticked⟩
  · intro id node found child member
    exact (after.world id node found).child_lt member
  · intro id index children found
    have declared : index < netlist.flipflops.length := (after.world id _ found).2
    exact netlist.graphTick_runs.state ▸ declared

/-- The analysis fails only where the tick that builds the graph fails. -/
theorem analyze_eq_error_iff (netlist : Netlist) (failure : AnalysisError) :
    netlist.analyze = .error failure ↔
      ∃ error, failure = .evaluation error ∧ netlist.graphTick.result = .error error := by
  simp only [analyze]
  cases ticked : netlist.graphTick.result with
  | error error => simp [eq_comm]
  | ok done =>
      obtain ⟨grounded, length⟩ := graphTick_grounded ticked
      have inside : ∀ index ∈ List.range netlist.outputs.length,
          index < netlist.graphTick.circuit.roots.outputs.length := by simp [length]
      obtain ⟨walker, walked⟩ := Walker.exists_walkAll grounded inside
      simp [walked]

end Netlist

end GateLevel
