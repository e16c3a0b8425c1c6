import GateLevel.Proofs.Graph.Unfolding

/-! An arena gives equal nodes one position, and positions are never given again, so nodes that
stand for equal trees are one node. -/

namespace GateLevel

namespace Arena

def Distinct (arena : Arena) : Prop :=
  ∀ id other node, arena.node? id = some node → arena.node? other = some node → id = other

def Descending (arena : Arena) : Prop :=
  ∀ id node, arena.node? id = some node → ∀ child ∈ node.children, child < id

variable {arena : Arena} {node : Node}

theorem distinct_empty : empty.Distinct := by
  intro id other node found
  simp [empty, node?] at found

theorem descending_empty : empty.Descending := by
  intro id node found
  simp [empty, node?] at found

theorem node?_push (arena : Arena) (node other : Node) (id : NodeId) :
    node? ⟨arena.nodes.push node⟩ id = some other ↔
      arena.node? id = some other ∨ (id = arena.size ∧ other = node) := by
  simp only [node?, size, Array.getElem?_push]
  split
  · rename_i last
    subst last
    simp [eq_comm]
  · rename_i earlier
    simp [earlier]

theorem allocate_of_node? (distinct : arena.Distinct) {id : NodeId}
    (found : arena.node? id = some node) : arena.allocate node = (id, arena) := by
  simp only [allocate]
  cases position : arena.nodes.toList.idxOf? node with
  | none =>
      rw [List.idxOf?_eq_none_iff] at position
      exact absurd (by simpa using Array.mem_of_getElem? found) position
  | some other =>
      have stored := arena.node?_allocate node
      simp only [allocate, position] at stored
      rw [distinct id other node found stored]

theorem allocate_of_absent (absent : ∀ id, arena.node? id ≠ some node) :
    arena.allocate node = (arena.size, ⟨arena.nodes.push node⟩) := by
  simp only [allocate]
  cases position : arena.nodes.toList.idxOf? node with
  | none => rfl
  | some id =>
      have stored := arena.node?_allocate node
      simp only [allocate, position] at stored
      exact absurd stored (absent id)

/-- The node that is asked for is found, or it comes to stand last. -/
theorem allocate_cases (distinct : arena.Distinct) (node : Node) :
    (∃ id, arena.node? id = some node ∧ arena.allocate node = (id, arena)) ∨
      (∀ id, arena.node? id ≠ some node) ∧
        arena.allocate node = (arena.size, ⟨arena.nodes.push node⟩) := by
  by_cases present : ∃ id, arena.node? id = some node
  · obtain ⟨id, found⟩ := present
    exact Or.inl ⟨id, found, allocate_of_node? distinct found⟩
  · simp only [not_exists] at present
    exact Or.inr ⟨present, allocate_of_absent present⟩

theorem node?_allocate_iff (distinct : arena.Distinct) (node other : Node) (id : NodeId) :
    (arena.allocate node).2.node? id = some other ↔
      arena.node? id = some other ∨ (id = (arena.allocate node).1 ∧ other = node) := by
  rcases allocate_cases distinct node with ⟨known, found, same⟩ | ⟨_, same⟩
  · rw [same]
    constructor
    · exact Or.inl
    · rintro (old | ⟨rfl, rfl⟩)
      · exact old
      · exact found
  · rw [same]
    exact arena.node?_push node other id

theorem Distinct.allocate (distinct : arena.Distinct) (node : Node) :
    (arena.allocate node).2.Distinct := by
  rcases allocate_cases distinct node with ⟨_, _, same⟩ | ⟨absent, same⟩
  · rw [same]
    exact distinct
  · rw [same]
    intro id other held first second
    simp only [node?_push] at first second
    rcases first with old | ⟨rfl, rfl⟩
    · rcases second with earlier | ⟨_, rfl⟩
      · exact distinct id other held old earlier
      · exact absurd old (absent id)
    · rcases second with earlier | ⟨last, _⟩
      · exact absurd earlier (absent other)
      · exact last.symm

theorem Descending.allocate (descending : arena.Descending)
    (earlier : ∀ child ∈ node.children, child < arena.size) :
    (arena.allocate node).2.Descending := by
  simp only [Arena.allocate]
  split
  · exact descending
  · intro id other found child member
    rw [node?_push] at found
    rcases found with old | ⟨rfl, rfl⟩
    · exact descending id other old child member
    · exact earlier child member

theorem allocateAll_induction {property : Arena → Prop}
    (step : ∀ arena node, property arena → property (arena.allocate node).2)
    (nodes : List Node) (begins : property arena) : property (arena.allocateAll nodes).2 := by
  induction nodes generalizing arena with
  | nil => exact begins
  | cons node rest ih => exact ih (step arena node begins)

theorem allocateAll_extends (nodes : List Node) (arena : Arena) :
    arena.Extends (arena.allocateAll nodes).2 :=
  allocateAll_induction (fun _ node grown => grown.trans (allocate_extends _ node)) nodes
    (.refl arena)

theorem allocateAll_denote (nodes : List Node) (arena : Arena) :
    List.Forall₂ (fun id node => (arena.allocateAll nodes).2.node? id = some node)
      (arena.allocateAll nodes).1 nodes := by
  induction nodes generalizing arena with
  | nil => exact .nil
  | cons node rest ih =>
      have first := arena.node?_allocate node
      exact .cons (allocateAll_extends rest _ _ _ first) (ih _)

theorem node?_allocateAll_iff (distinct : arena.Distinct) (nodes : List Node) (node : Node)
    (id : NodeId) : (arena.allocateAll nodes).2.node? id = some node ↔
      arena.node? id = some node ∨ (id, node) ∈ (arena.allocateAll nodes).1.zip nodes := by
  induction nodes generalizing arena with
  | nil => simp [allocateAll]
  | cons first rest ih =>
      simp only [allocateAll, List.zip_cons_cons, List.mem_cons, Prod.mk.injEq]
      rw [ih (distinct.allocate first), node?_allocate_iff distinct, or_assoc]

theorem exists_given {ids : List NodeId} {nodes : List Node}
    (denote : List.Forall₂ (fun id node => arena.node? id = some node) ids nodes) {position : Nat}
    (asked : nodes[position]? = some node) :
    ∃ id, ids[position]? = some id ∧ arena.node? id = some node := by
  have related := Correspondence.rel_getElem? denote position
  rw [asked] at related
  generalize ids[position]? = given at related ⊢
  cases related with
  | some found => exact ⟨_, rfl, found⟩

theorem lt_size_of_denote {ids : List NodeId} {nodes : List Node}
    (denote : List.Forall₂ (fun id node => arena.node? id = some node) ids nodes) :
    ∀ id ∈ ids, id < arena.size := by
  induction denote with
  | nil => simp
  | cons first _ ih => exact List.forall_mem_cons.mpr ⟨(lt_size_iff ..).mpr ⟨_, first⟩, ih⟩

/-- What a sequence of allocations from a new arena has given and left behind. -/
structure Interned (nodes : List Node) (ids : List NodeId) (arena : Arena) : Prop where
  denote : List.Forall₂ (fun id node => arena.node? id = some node) ids nodes
  mem_iff : ∀ id, id ∈ ids ↔ id < arena.size
  keeps : ∀ more, arena.Extends (arena.allocateAll more).2
  known : ∀ (position : Nat) (node : Node), nodes[position]? = some node →
    ids[position]? = some (arena.allocate node).1 ∧ (arena.allocate node).2 = arena
  fresh : ∀ node ∉ nodes, (arena.allocate node).1 = arena.size ∧
    (arena.allocate node).2.size = arena.size + 1
  distinct : arena.Distinct

theorem interned (nodes : List Node) :
    Interned nodes (empty.allocateAll nodes).1 (empty.allocateAll nodes).2 := by
  have denote := allocateAll_denote nodes empty
  have distinct : (empty.allocateAll nodes).2.Distinct :=
    allocateAll_induction (fun _ node distinct => distinct.allocate node) nodes distinct_empty
  have given : ∀ id node, (empty.allocateAll nodes).2.node? id = some node →
      (id, node) ∈ (empty.allocateAll nodes).1.zip nodes := by
    intro id node found
    rcases (node?_allocateAll_iff distinct_empty nodes node id).mp found with none | given
    · simp [empty, node?] at none
    · exact given
  refine ⟨denote, fun id => ⟨lt_size_of_denote denote id, ?_⟩,
    fun more => allocateAll_extends more _, ?_, ?_, distinct⟩
  · intro bound
    obtain ⟨node, found⟩ := (lt_size_iff ..).mp bound
    exact (List.of_mem_zip (given id node found)).1
  · intro position node asked
    obtain ⟨id, answered, found⟩ := exists_given denote asked
    rw [allocate_of_node? distinct found]
    exact ⟨answered, rfl⟩
  · intro node new
    rw [allocate_of_absent fun id found => new (List.of_mem_zip (given id node found)).2]
    exact ⟨rfl, by simp [size]⟩

/-- Every node is asked for after its children have been given. -/
def ChildrenFirst (nodes : List Node) (ids : List NodeId) : Prop :=
  ∀ (position : Nat) (node : Node), nodes[position]? = some node → ∀ child ∈ node.children,
    child ∈ ids.take position

theorem Descending.allocateAll {nodes : List Node} (descending : arena.Descending)
    (earlier : ∀ (position : Nat) (node : Node), nodes[position]? = some node →
      ∀ child ∈ node.children,
        child < arena.size ∨ child ∈ (arena.allocateAll nodes).1.take position) :
    (arena.allocateAll nodes).2.Descending := by
  induction nodes generalizing arena with
  | nil => exact descending
  | cons first rest ih =>
      have below : ∀ child ∈ first.children, child < arena.size := by
        intro child member
        simpa using earlier 0 first rfl child member
      apply ih (descending.allocate below)
      intro position node asked child member
      rcases earlier (position + 1) node asked child member with old | given
      · exact Or.inl ((arena.allocate_extends first).lt_size old)
      · simp only [Arena.allocateAll, List.take_succ_cons, List.mem_cons] at given
        rcases given with rfl | later
        · exact Or.inl ((lt_size_iff ..).mpr ⟨first, arena.node?_allocate first⟩)
        · exact Or.inr later

end Arena

inductive Tree
  | node (token : Token) (children : List Tree)

namespace Arena

inductive Spells (arena : Arena) : NodeId → Tree → Prop
  | node {id token children trees} : arena.node? id = some ⟨token, children⟩ →
      List.Forall₂ (Spells arena) children trees → Spells arena id (.node token trees)

variable {arena : Arena}

theorem eq_of_forall₂ {α β : Type} {related : α → β → Prop} {values others : List α}
    {partners : List β} (first : List.Forall₂ related values partners)
    (second : List.Forall₂ related others partners)
    (each : ∀ value ∈ values, ∀ other partner, related value partner → related other partner →
      value = other) : values = others := by
  induction first generalizing others with
  | nil => exact (List.forall₂_nil_right_iff.mp second).symm
  | cons holds _ ih =>
      cases second with
      | cons same more =>
          rw [each _ (by simp) _ _ holds same,
            ih more fun other member => each other (List.mem_cons_of_mem _ member)]

theorem Descending.existsUnique_spells (descending : arena.Descending) {id : NodeId}
    (bound : id < arena.size) : ∃! tree, arena.Spells id tree := by
  induction id using Nat.strongRecOn with
  | ind id ih =>
      obtain ⟨⟨token, children⟩, found⟩ := (arena.lt_size_iff id).mp bound
      have below : ∀ child ∈ children, ∃! tree, arena.Spells child tree := by
        intro child member
        have earlier : child < id := descending id _ found child member
        exact ih child earlier (Nat.lt_trans earlier bound)
      obtain ⟨trees, spell, only⟩ := existsUnique_forall₂ below
      refine ⟨.node token trees, .node found spell, ?_⟩
      rintro _ ⟨same, others⟩
      rw [found, Option.some.injEq, Node.mk.injEq] at same
      obtain ⟨rfl, rfl⟩ := same
      rw [only _ others]

theorem Descending.eq_of_spells (descending : arena.Descending) (distinct : arena.Distinct)
    {id other : NodeId} {tree : Tree} (first : arena.Spells id tree)
    (second : arena.Spells other tree) : id = other := by
  induction id using Nat.strongRecOn generalizing other tree with
  | ind id ih =>
      obtain ⟨found, spell⟩ := first
      obtain ⟨held, others⟩ := second
      -- Children of the first node stand before it, so they are those of the other one.
      have children := eq_of_forall₂ spell others fun child member _ _ =>
        ih child (descending id _ found child member)
      exact distinct id other _ found (children ▸ held)

theorem Distinct.eq_of_unfolds (distinct : arena.Distinct) {id other : NodeId} {formula : Formula}
    (first : arena.Unfolds id formula) (second : arena.Unfolds other formula) : id = other := by
  induction first generalizing other with
  | signal found =>
      cases second with
      | signal same => exact distinct _ _ _ found same
  | not found _ ih =>
      cases second with
      | not same operand =>
          obtain rfl := ih operand
          exact distinct _ _ _ found same
  | binary found _ _ lastIh firstIh =>
      cases second with
      | binary same last first =>
          obtain rfl := lastIh last
          obtain rfl := firstIh first
          exact distinct _ _ _ found same

end Arena

inductive Formula.Occurs (part : Formula) : Formula → Prop
  | here : Occurs part part
  | not {operand} : Occurs part operand → Occurs part (.not operand)
  | first {gate first last} : Occurs part first → Occurs part (.binary gate first last)
  | last {gate first last} : Occurs part last → Occurs part (.binary gate first last)

theorem Arena.Unfolds.exists_of_occurs {arena : Arena} {id : NodeId} {part whole : Formula}
    (unfolds : arena.Unfolds id whole) (occurs : part.Occurs whole) :
    ∃ node, arena.Unfolds node part := by
  induction occurs generalizing id with
  | here => exact ⟨id, unfolds⟩
  | not _ ih =>
      cases unfolds with
      | not _ operand => exact ih operand
  | first _ ih =>
      cases unfolds with
      | binary _ _ first => exact ih first
  | last _ ih =>
      cases unfolds with
      | binary _ last _ => exact ih last

def keeping {property : Arena → Prop}
    (step : ∀ arena node, property arena → property (arena.allocate node).2) :
    Correspondence .graph .graph where
  World arena _ := property arena
  Related _ _ _ _ := True
  invert := fun holds _ => ⟨step _ _ holds, fun _ _ _ => trivial, trivial⟩
  combine := fun _ _ _ _ _ _ _ holds _ _ => ⟨step _ _ holds, fun _ _ _ => trivial, trivial⟩

namespace GraphCircuit

variable {property : Arena → Prop}

theorem tick_keeps (step : ∀ arena node, property arena → property (arena.allocate node).2)
    {circuit : GraphCircuit} (holds : property circuit.context) (inputs : List NodeId) :
    property (Circuit.tick .graph inputs circuit).circuit.context := by
  have related (ids : List NodeId) :
      List.Forall₂ ((keeping step).Related circuit.context circuit.context) ids ids :=
    List.forall₂_same.mpr fun _ _ => trivial
  have circuits : (keeping step).Circuits circuit circuit :=
    ⟨rfl, holds, related circuit.state, related circuit.outputs⟩
  exact (circuits.tick (related inputs)).2.2.world

theorem leads_keeps (step : ∀ arena node, property arena → property (arena.allocate node).2)
    {netlist : Netlist} {arena : Arena} (begins : property arena)
    {allowed : Arena → List NodeId → Prop} {circuit : GraphCircuit}
    (reached : (netlist.graphCircuit arena).Leads .graph allowed circuit) :
    property circuit.context := by
  induction reached with
  | refl =>
      exact Arena.allocateAll_induction step _ (Arena.allocateAll_induction step _ begins)
  | tail _ ticks ih =>
      obtain ⟨inputs, _, rfl⟩ := ticks
      exact tick_keeps step ih inputs

end GraphCircuit

/-- An arena with an index that leads from its nodes back to their positions. -/
structure IndexedArena where
  nodes : Array Node
  index : List (Node × NodeId)

namespace IndexedArena

def empty : IndexedArena := ⟨#[], []⟩

def arena (indexed : IndexedArena) : Arena := ⟨indexed.nodes⟩

def allocate (node : Node) (indexed : IndexedArena) : NodeId × IndexedArena :=
  match indexed.index.lookup node with
  | some id => (id, indexed)
  | none =>
    let id := indexed.nodes.size
    (id, ⟨indexed.nodes.push node, (node, id) :: indexed.index⟩)

def allocateAll : List Node → IndexedArena → List NodeId × IndexedArena
  | [], indexed => ([], indexed)
  | node :: rest, indexed =>
    let (id, indexed) := indexed.allocate node
    let (ids, indexed) := allocateAll rest indexed
    (id :: ids, indexed)

def Exact (indexed : IndexedArena) : Prop :=
  ∀ node id, indexed.index.lookup node = some id ↔ indexed.arena.node? id = some node

variable {indexed : IndexedArena}

theorem Exact.distinct (exact : indexed.Exact) : indexed.arena.Distinct := by
  intro id other node found held
  rw [← exact] at found held
  exact Option.some.inj (found.symm.trans held)

theorem exact_empty : empty.Exact := by
  intro node id
  simp [empty, arena, Arena.node?]

theorem Exact.allocate (exact : indexed.Exact) (node : Node) :
    (indexed.allocate node).1 = (indexed.arena.allocate node).1 ∧
      (indexed.allocate node).2.arena = (indexed.arena.allocate node).2 ∧
      (indexed.allocate node).2.Exact := by
  simp only [IndexedArena.allocate]
  cases looked : indexed.index.lookup node with
  | some id =>
      rw [Arena.allocate_of_node? exact.distinct ((exact node id).mp looked)]
      exact ⟨rfl, rfl, exact⟩
  | none =>
      have absent : ∀ id, indexed.arena.node? id ≠ some node := by
        intro id found
        rw [← exact, looked] at found
        contradiction
      rw [Arena.allocate_of_absent absent]
      refine ⟨rfl, rfl, ?_⟩
      intro other id
      have pushed := indexed.arena.node?_push node other id
      rw [← exact] at pushed
      refine Iff.trans ?_ pushed.symm
      rw [List.lookup_cons]
      by_cases same : other = node
      · subst same
        simp [looked, eq_comm, Arena.size, arena]
      · simp [same, beq_false_of_ne same]

theorem Exact.allocateAll (exact : indexed.Exact) (nodes : List Node) :
    (indexed.allocateAll nodes).1 = (indexed.arena.allocateAll nodes).1 ∧
      (indexed.allocateAll nodes).2.arena = (indexed.arena.allocateAll nodes).2 ∧
      (indexed.allocateAll nodes).2.Exact := by
  induction nodes generalizing indexed with
  | nil => exact ⟨rfl, rfl, exact⟩
  | cons node rest ih =>
      obtain ⟨given, left, kept⟩ := exact.allocate node
      obtain ⟨ids, after, later⟩ := ih kept
      rw [left] at ids after
      refine ⟨?_, after, later⟩
      simp only [IndexedArena.allocateAll, Arena.allocateAll]
      rw [given, ids]

end IndexedArena

/-- Allocation interns nodes, and gives the same with an index as without. Where children come
first, nodes are one exactly if the trees below them are. Hence every subexpression of what a
circuit has drawn stands below exactly one node. -/
theorem allocation_interns :
    (∀ nodes ids arena, Arena.empty.allocateAll nodes = (ids, arena) →
      Arena.Interned nodes ids arena ∧
        (Arena.ChildrenFirst nodes ids → (∀ id ∈ ids, ∃! tree, arena.Spells id tree) ∧
          ∀ id other tree partner, arena.Spells id tree → arena.Spells other partner →
            (id = other ↔ tree = partner)) ∧
        ∃ indexed, IndexedArena.empty.allocateAll nodes = (ids, indexed) ∧
          indexed.arena = arena ∧ indexed.Exact) ∧
      ∀ nodes (netlist : Netlist) allowed circuit,
        (netlist.graphCircuit (Arena.empty.allocateAll nodes).2).Leads .graph allowed circuit →
          ∀ id part whole, circuit.context.Unfolds id whole → part.Occurs whole →
            ∃! node, circuit.context.Unfolds node part := by
  refine ⟨?_, ?_⟩
  · rintro nodes ids arena allocated
    have interned := Arena.interned nodes
    obtain ⟨given, after, exact⟩ := IndexedArena.exact_empty.allocateAll nodes
    rw [show IndexedArena.empty.arena = Arena.empty from rfl, allocated] at given after
    rw [allocated] at interned
    refine ⟨interned, ?_, _, Prod.ext given rfl, after, exact⟩
    intro first
    have descending : arena.Descending := by
      have built := Arena.descending_empty.allocateAll fun position node asked child member =>
        Or.inr (by rw [allocated]; exact first position node asked child member)
      rwa [allocated] at built
    have spelled {id : NodeId} {tree : Tree} (spells : arena.Spells id tree) :
        ∃! tree, arena.Spells id tree := by
      obtain ⟨found, _⟩ := spells
      exact descending.existsUnique_spells ((arena.lt_size_iff id).mpr ⟨_, found⟩)
    refine ⟨fun id member => descending.existsUnique_spells ((interned.mem_iff id).mp member), ?_⟩
    intro id other tree partner spells spellsOther
    constructor
    · rintro rfl
      exact (spelled spells).unique spells spellsOther
    · rintro rfl
      exact descending.eq_of_spells interned.distinct spells spellsOther
  · intro nodes netlist allowed circuit reached id part whole unfolds occurs
    have distinct : circuit.context.Distinct :=
      GraphCircuit.leads_keeps (fun _ node distinct => distinct.allocate node)
        (Arena.interned nodes).distinct reached
    obtain ⟨node, below⟩ := unfolds.exists_of_occurs occurs
    exact ⟨node, below, fun other same => distinct.eq_of_unfolds same below⟩

def askedTwice : List Node :=
  [.leaf (.input 0), .leaf (.flipflop 1), ⟨.gate (.binary .xor), [1, 0]⟩, .leaf (.input 0),
    ⟨.gate (.binary .xor), [1, 0]⟩, ⟨.signal (.input 3), [2, 0, 2]⟩,
    ⟨.signal (.input 3), [2, 0, 2]⟩]

theorem childrenFirst_askedTwice :
    Arena.ChildrenFirst askedTwice (Arena.empty.allocateAll askedTwice).1 := by
  have ids : (Arena.empty.allocateAll askedTwice).1 = [0, 1, 2, 0, 2, 3, 3] := by decide +kernel
  rw [ids]
  intro position node asked child member
  rcases position with _ | _ | _ | _ | _ | _ | _ | position <;> simp [askedTwice] at asked <;>
    subst asked <;> simp [Node.leaf] at member ⊢ <;> grind

/-- Of a list with three nodes asked for twice, four are kept; and the exclusive or that an output
of the ring shares with a flip-flop is one node. -/
theorem allocation_interns_askedTwice :
    (Arena.empty.allocateAll askedTwice).1 = [0, 1, 2, 0, 2, 3, 3] ∧
      (Arena.empty.allocateAll askedTwice).2.size = 4 ∧
      (∃! tree, (Arena.empty.allocateAll askedTwice).2.Spells 3 tree) ∧
      ∃! node, Netlist.ringDrawn.context.Unfolds node
        (.binary .xor (.signal (.input 0)) (.signal (.flipflop 0))) := by
  obtain ⟨allocations, drawn⟩ := allocation_interns
  have ids : (Arena.empty.allocateAll askedTwice).1 = [0, 1, 2, 0, 2, 3, 3] := by decide +kernel
  obtain ⟨_, trees, _⟩ := allocations askedTwice (Arena.empty.allocateAll askedTwice).1
    (Arena.empty.allocateAll askedTwice).2 rfl
  have reached : (Netlist.ring.graphCircuit (Arena.empty.leaves .input 3).2).Leads .graph
      (fun _ _ => True) Netlist.ringDrawn :=
    .single ⟨[0, 1, 2], trivial, rfl⟩
  have whole : Netlist.ringDrawn.context.Unfolds 12 (.binary .and
      (.binary .xor (.signal (.input 0)) (.signal (.flipflop 0))) (.signal (.flipflop 1))) := by
    have andNode : Netlist.ringDrawn.context.node? 12 =
        some ⟨.gate (.binary .and), [4, 9]⟩ := by decide +kernel
    have xorNode : Netlist.ringDrawn.context.node? 9 =
        some ⟨.gate (.binary .xor), [3, 0]⟩ := by decide +kernel
    apply Arena.Unfolds.binary andNode (.signal (by decide +kernel))
    exact .binary xorNode (.signal (by decide +kernel)) (.signal (by decide +kernel))
  refine ⟨ids, by decide +kernel, (trees childrenFirst_askedTwice).1 3 (by simp [ids]), ?_⟩
  exact drawn _ .ring _ _ reached 12 _ _ whole (.first .here)

end GateLevel
