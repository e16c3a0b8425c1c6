import GateLevel.Proofs.Graph.Cones
import GateLevel.Proofs.Graph.Paths

/-! The itinerary of a walker: the flip-flops whose roots it walks, over its whole life. However the
flip-flops feed one another, no root is walked twice, and every walk ends where it began. -/

namespace GateLevel

/-- A walk together with the flip-flops whose roots it walks, in this order. -/
inductive Tours (roots : Roots) : List NodeId → Walker → Walker → List Nat → Prop
  | nil {walker} : Tours roots [] walker walker []
  | pass {id rest token children walker below after inner outer} :
      roots.arena.node? id = some ⟨token, children⟩ →
      (∀ index, token = .signal (.flipflop index) → index ∈ walker.entered) →
      Tours roots children (walker.meet token) below inner →
      Tours roots rest below.popToken after outer →
      Tours roots (id :: rest) walker after (inner ++ outer)
  | enter {id rest index children root walker inside below after beyond inner outer} :
      roots.arena.node? id = some ⟨.signal (.flipflop index), children⟩ →
      index ∉ walker.entered → roots.flipflops[index]? = some root →
      Tours roots [root] ((walker.pushToken (.signal (.flipflop index))).descend index) inside
        beyond →
      Tours roots children inside.popTarget below inner →
      Tours roots rest below.popToken after outer →
      Tours roots (id :: rest) walker after (index :: beyond ++ inner ++ outer)

variable {roots : Roots} {ids : List NodeId} {before after : Walker} {itinerary : List Nat}

namespace Tours

theorem walks (tours : Tours roots ids before after itinerary) : Walks roots ids before after := by
  induction tours with
  | nil => exact .nil
  | pass found entered _ _ inner outer => exact .pass found entered inner outer
  | enter found fresh driven _ _ _ beyond inner outer =>
      exact .enter found fresh driven beyond inner outer

/-- The walker has entered the flip-flops whose roots it has walked, and no others. -/
theorem entered (tours : Tours roots ids before after itinerary) :
    after.entered = itinerary.reverse ++ before.entered := by
  induction tours with
  | nil => rfl
  | @pass id rest token children walker below after inner outer _ _ _ _ innerIh outerIh =>
      rw [outerIh, Walker.popToken, innerIh, Walker.meet_entered]
      simp
  | @enter id rest index children root walker inside below after beyond inner outer _ _ _ _ _ _
      beyondIh innerIh outerIh =>
      have descended : ((walker.pushToken (.signal (.flipflop index))).descend index).entered =
          index :: walker.entered := rfl
      rw [outerIh, Walker.popToken, innerIh, Walker.popTarget, beyondIh, descended]
      simp

end Tours

namespace Walks

theorem exists_tours (walks : Walks roots ids before after) :
    ∃ itinerary, Tours roots ids before after itinerary := by
  induction walks with
  | nil => exact ⟨_, .nil⟩
  | pass found entered _ _ inner outer =>
      obtain ⟨_, inner⟩ := inner
      obtain ⟨_, outer⟩ := outer
      exact ⟨_, .pass found entered inner outer⟩
  | enter found fresh driven _ _ _ beyond inner outer =>
      obtain ⟨_, beyond⟩ := beyond
      obtain ⟨_, inner⟩ := inner
      obtain ⟨_, outer⟩ := outer
      exact ⟨_, .enter found fresh driven beyond inner outer⟩

theorem counted (walks : Walks roots ids before after) (counted : before.Counted roots) :
    after.Counted roots := by
  induction walks with
  | nil => exact counted
  | pass _ _ _ _ inner outer =>
      have below := inner ⟨by simpa using counted.nodup, by simpa using counted.bounded⟩
      exact outer ⟨below.nodup, below.bounded⟩
  | @enter _ _ index _ _ walker _ _ _ _ fresh driven _ _ _ beyond inner outer =>
      have pushed : (walker.pushToken (.signal (.flipflop index))).Counted roots :=
        ⟨counted.nodup, counted.bounded⟩
      have inside := beyond (pushed.descend fresh (List.getElem?_eq_some_iff.mp driven).1)
      have below := inner ⟨inside.nodup, inside.bounded⟩
      exact outer ⟨below.nodup, below.bounded⟩

theorem unique {other : Walker} (first : Walks roots ids before after)
    (second : Walks roots ids before other) : after = other := by
  induction first generalizing other with
  | nil =>
      cases second
      rfl
  | pass found entered _ _ inner outer =>
      cases second with
      | pass same _ children rest =>
          rw [found, Option.some.injEq, Node.mk.injEq] at same
          obtain ⟨rfl, rfl⟩ := same
          obtain rfl := inner children
          exact outer rest
      | enter same fresh _ _ _ _ =>
          rw [found, Option.some.injEq, Node.mk.injEq] at same
          exact absurd (entered _ same.1) fresh
  | enter found fresh driven _ _ _ beyond inner outer =>
      cases second with
      | pass same entered _ _ =>
          rw [found, Option.some.injEq, Node.mk.injEq] at same
          exact absurd (entered _ same.1.symm) fresh
      | enter same _ drives root children rest =>
          simp only [found, Option.some.injEq, Node.mk.injEq, Token.signal.injEq,
            Signal.flipflop.injEq] at same
          obtain ⟨rfl, rfl⟩ := same
          obtain rfl : _ = _ := Option.some.inj (driven.symm.trans drives)
          obtain rfl := beyond root
          obtain rfl := inner children
          exact outer rest

end Walks

namespace Walker

/-- The walkers that come from the new one by walking outputs, with all flip-flops whose roots have
been walked on the way. -/
inductive Life (roots : Roots) : Walker → List Nat → Prop
  | start : Life roots .start []
  | next {walker itinerary index root inside more} : Life roots walker itinerary →
      roots.outputs[index]? = some root →
      Tours roots [root] (walker.pushTarget (.output index)) inside more →
      Life roots inside.popTarget (itinerary ++ more)

variable {walker : Walker}

theorem Life.counted (life : Life roots walker itinerary) : walker.Counted roots := by
  induction life with
  | start => exact ⟨List.nodup_nil, by simp [Walker.start]⟩
  | next _ _ tours ih =>
      have inside := tours.walks.counted
        (show (pushTarget _ _).Counted roots from ⟨ih.nodup, ih.bounded⟩)
      exact ⟨inside.nodup, inside.bounded⟩

theorem Life.entered (life : Life roots walker itinerary) :
    walker.entered = itinerary.reverse := by
  induction life with
  | start => rfl
  | next _ _ tours ih =>
      rw [popTarget, tours.entered, pushTarget, ih, List.reverse_append]

theorem Life.nodup (life : Life roots walker itinerary) : itinerary.Nodup := by
  rw [← List.nodup_reverse, ← life.entered]
  exact life.counted.nodup

theorem walk_eq_of_depthBound_le (grounded : roots.Grounded) (counted : walker.Counted roots)
    {root : NodeId} (present : root < roots.arena.size) {inside : Walker}
    (walks : Walks roots [root] walker inside) {depth : Nat} (enough : depthBound roots ≤ depth) :
    walk roots depth root walker = .ok inside := by
  obtain ⟨after, walked, _⟩ := walk_ends grounded counted present
    (Nat.lt_of_lt_of_le (reserve_lt_depthBound walker present) enough)
  rw [walked, (walks_of_walk walked).unique walks]

structure Returns (roots : Roots) (index : Nat) (walker after : Walker) : Prop where
  walked : walker.walkOutput roots index = .ok after
  trail : after.trail = walker.trail
  hierarchy : after.hierarchy = walker.hierarchy
  deeper : ∀ root, roots.outputs[index]? = some root → ∀ depth, depthBound roots ≤ depth →
    walk roots depth root (walker.pushTarget (.output index)) =
      .ok (after.pushTarget (.output index))

theorem Life.exists_returns (grounded : roots.Grounded) (life : Life roots walker itinerary)
    {index : Nat} (bound : index < roots.outputs.length) :
    ∃ after more, Returns roots index walker after ∧ Life roots after (itinerary ++ more) := by
  obtain ⟨after, walked, _⟩ := walkOutput_ends grounded life.counted bound
  obtain ⟨root, inside, driven, walks, rfl⟩ := walks_of_walkOutput walked
  obtain ⟨more, tours⟩ := walks.exists_tours
  have targets : inside.hierarchy = .output index :: walker.hierarchy := walks.frame.hierarchy
  refine ⟨_, more, ⟨walked, walks.frame.trail, ?_, ?_⟩, .next life driven tours⟩
  · rw [popTarget, targets, List.tail_cons]
  · intro other same depth enough
    obtain rfl : root = other := Option.some.inj (driven.symm.trans same)
    have counted : (walker.pushTarget (.output index)).Counted roots :=
      ⟨life.counted.nodup, life.counted.bounded⟩
    have present := grounded.outputs_present root (List.mem_of_getElem? driven)
    rw [walk_eq_of_depthBound_le grounded counted present walks enough]
    simp only [popTarget, pushTarget, targets, List.tail_cons]
    rw [← targets]

end Walker

theorem Netlist.child_lt_of_leads {netlist : Netlist} {arena : Arena}
    (proper : arena.Proper fun _ => True) {circuit : GraphCircuit}
    (reached : (netlist.graphCircuit arena).Leads .graph
      (fun arena ids => ∀ id ∈ ids, id < arena.size) circuit) {id : NodeId} {node : Node}
    (found : circuit.context.node? id = some node) {child : NodeId}
    (member : child ∈ node.children) : child < id := by
  obtain ⟨_, beside⟩ := exists_beside proper (fun _ _ => trivial) (fun _ => .unknown) reached
  exact (beside.world id node found).child_lt member

/-- A walker over a grounded graph never walks a root twice, and it can walk any output at any time;
then nothing of the walk is left but what it has met, and closing over that ends as well. The graphs
that a circuit builds are grounded in this way, so an analysis fails only where its tick fails. -/
theorem walks_always_end :
    (∀ roots : Roots, roots.Grounded → ∀ walker itinerary, Walker.Life roots walker itinerary →
      itinerary.Nodup ∧
        (∀ index < roots.outputs.length, ∃ after more, Walker.Returns roots index walker after ∧
          Walker.Life roots after (itinerary ++ more)) ∧
        ∀ order : Nat → List Reuse,
          (∀ round reuse, reuse ∈ order round ↔ reuse ∈ walker.reuses) →
            ∃ fuel closed,
              (Cones.gathered walker.sightings).closeFrom order 0 fuel = some closed) ∧
      (∀ (netlist : Netlist) (arena : Arena), (arena.Proper fun _ => True) →
        ∀ circuit, (netlist.graphCircuit arena).Leads .graph
          (fun arena ids => ∀ id ∈ ids, id < arena.size) circuit →
            ∀ id node, circuit.context.node? id = some node → ∀ child ∈ node.children,
              child < id) ∧
      ∀ netlist : Netlist, (∃ cause, netlist.analyze = .error (.evaluation cause)) ∨
        netlist.graphTick.circuit.roots.Grounded ∧ ∃ analysis, netlist.analyze = .ok analysis := by
  refine ⟨?_, ?_, ?_⟩
  · intro roots grounded walker itinerary life
    refine ⟨life.nodup, fun index bound => life.exists_returns grounded bound, ?_⟩
    intro order same
    obtain ⟨closed, ended, _⟩ := walker.find?_closeFrom_gathered same
    exact ⟨_, closed, ended⟩
  · intro netlist arena proper circuit reached id node found child member
    exact Netlist.child_lt_of_leads proper reached found member
  · intro netlist
    cases analyzed : netlist.analyze with
    | error failure =>
        obtain ⟨cause, rfl, _⟩ := (netlist.analyze_eq_error_iff failure).mp analyzed
        exact Or.inl ⟨cause, rfl⟩
    | ok analysis =>
        have ticked := (Netlist.analyze_eq_ok analyzed).1
        exact Or.inr ⟨(Netlist.graphTick_grounded ticked).1, analysis, rfl⟩

/-- The walk of the third output goes through both flip-flops that feed each other, so the walk of
the first output after it goes through none. -/
theorem walks_always_end_feedback :
    (∃ after later, Walker.Returns Roots.feedback 2 .start after ∧
      Walker.Returns Roots.feedback 0 after later ∧
      Walker.Life Roots.feedback after [0, 1] ∧ Walker.Life Roots.feedback later [0, 1]) ∧
      ∀ id node, Netlist.ringDrawn.context.node? id = some node → ∀ child ∈ node.children,
        child < id := by
  obtain ⟨lives, circuits, _⟩ := walks_always_end
  have known : ∀ {walker : Walker} {itinerary : List Nat},
      Walker.Life Roots.feedback walker itinerary → walker.entered = [1, 0] → itinerary = [0, 1] := by
    intro walker itinerary life entered
    rw [life.entered] at entered
    simpa using congrArg List.reverse entered
  refine ⟨?_, ?_⟩
  · obtain ⟨_, walk, _⟩ := lives Roots.feedback Roots.grounded_feedback _ _ .start
    obtain ⟨after, more, returns, life⟩ := walk 2 (by decide)
    obtain ⟨_, walk, _⟩ := lives Roots.feedback Roots.grounded_feedback _ _ life
    obtain ⟨later, rest, second, longer⟩ := walk 0 (by decide)
    have entered : ((Walker.start.walkOutput Roots.feedback 2).bind fun after =>
        (after.walkOutput Roots.feedback 0).map fun later => (after.entered, later.entered)) =
          .ok ([1, 0], [1, 0]) := by
      decide +kernel
    simp only [returns.walked, second.walked, Except.bind, Except.map, Except.ok.injEq,
      Prod.mk.injEq] at entered
    have first := known life entered.1
    exact ⟨after, later, returns, second, first ▸ life, known longer entered.2 ▸ longer⟩
  · have proper : (Arena.empty.leaves .input 3).2.Proper fun _ => True :=
      ((Arena.proper_empty _).leaves_carry .input 3 (fun _ _ => trivial) fun _ => .unknown).1
    exact circuits .ring _ proper _ (.single ⟨[0, 1, 2], by decide +kernel, rfl⟩)

end GateLevel
