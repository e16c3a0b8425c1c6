import GateLevel.Graph.Arena
import Mathlib.Data.List.Forall2

/-! Allocation never changes what stands below a node, so the signals below it stay the same
however much the graph grows. -/

namespace GateLevel

namespace Arena

inductive Below (arena : Arena) : NodeId → Signal → Prop
  | here {id signal children} : arena.node? id = some ⟨.signal signal, children⟩ →
      Below arena id signal
  | child {id token children child signal} : arena.node? id = some ⟨token, children⟩ →
      child ∈ children → Below arena child signal → Below arena id signal

theorem below_iff {arena : Arena} {id : NodeId} {node : Node}
    (found : arena.node? id = some node) (signal : Signal) :
    arena.Below id signal ↔
      node.token = .signal signal ∨ ∃ child ∈ node.children, arena.Below child signal := by
  constructor
  · intro below
    cases below with
    | here same =>
        rw [found, Option.some.injEq] at same
        exact Or.inl (by rw [same])
    | child same member below =>
        rw [found, Option.some.injEq] at same
        exact Or.inr ⟨_, by rw [same]; exact member, below⟩
  · obtain ⟨token, children⟩ := node
    rintro (rfl | ⟨child, member, below⟩)
    · exact .here found
    · exact .child found member below

def Closed (arena : Arena) : Prop :=
  ∀ id node, arena.node? id = some node → ∀ child ∈ node.children, child < arena.size

def Extends (before after : Arena) : Prop :=
  ∀ id node, before.node? id = some node → after.node? id = some node

theorem Extends.refl (arena : Arena) : arena.Extends arena := fun _ _ found => found

theorem Extends.trans {before middle after : Arena} (front : before.Extends middle)
    (back : middle.Extends after) : before.Extends after :=
  fun id node found => back id node (front id node found)

theorem lt_size_iff (arena : Arena) (id : NodeId) :
    id < arena.size ↔ ∃ node, arena.node? id = some node := by
  simp only [size, node?, Array.getElem?_eq_some_iff]
  constructor
  · intro bound
    exact ⟨_, bound, rfl⟩
  · rintro ⟨_, bound, _⟩
    exact bound

namespace Extends

variable {before after : Arena}

theorem lt_size (grown : before.Extends after) {id : NodeId} (bound : id < before.size) :
    id < after.size := by
  obtain ⟨node, found⟩ := (before.lt_size_iff id).mp bound
  exact (after.lt_size_iff id).mpr ⟨node, grown id node found⟩

theorem below_iff (grown : before.Extends after) (closed : before.Closed) {id : NodeId}
    (bound : id < before.size) (signal : Signal) :
    after.Below id signal ↔ before.Below id signal := by
  constructor
  · intro below
    induction below with
    | @here id signal children found =>
        obtain ⟨node, old⟩ := (before.lt_size_iff id).mp bound
        rw [grown id node old, Option.some.injEq] at found
        exact .here (found ▸ old)
    | @child id token children child signal found member below ih =>
        obtain ⟨node, old⟩ := (before.lt_size_iff id).mp bound
        rw [grown id node old, Option.some.injEq] at found
        subst found
        exact .child old member (ih (closed id _ old child member))
  · intro below
    induction below with
    | here found => exact .here (grown _ _ found)
    | child found member below ih =>
        exact .child (grown _ _ found) member (ih (closed _ _ found _ member))

end Extends

theorem allocate_closed {arena : Arena} {node : Node} (closed : arena.Closed)
    (children : ∀ child ∈ node.children, child < arena.size) :
    (arena.allocate node).2.Closed := by
  simp only [allocate]
  split
  · exact closed
  · intro id other found child member
    simp only [size, node?, Array.getElem?_push, Array.size_push] at found ⊢
    split at found
    · rw [← Option.some.inj found] at member
      exact Nat.lt_succ_of_lt (children child member)
    · exact Nat.lt_succ_of_lt (closed id other found child member)

theorem allocate_extends (arena : Arena) (node : Node) :
    arena.Extends (arena.allocate node).2 := by
  simp only [allocate]
  split
  · exact .refl arena
  · intro id other found
    have bound := (arena.lt_size_iff id).mpr ⟨other, found⟩
    simp only [size] at bound
    simp only [node?, Array.getElem?_push, if_neg (Nat.ne_of_lt bound)]
    exact found

theorem node?_allocate (arena : Arena) (node : Node) :
    (arena.allocate node).2.node? (arena.allocate node).1 = some node := by
  simp only [allocate]
  split
  · rename_i id found
    rw [List.idxOf?_eq_some_iff] at found
    obtain ⟨bound, same, _⟩ := found
    simp only [Array.length_toList, Array.getElem_toList] at bound same
    simp [node?, bound, same]
  · simp [node?, size]

structure Stands (arena : Arena) (id : NodeId) (signals : List Signal) : Prop where
  bound : id < arena.size
  below : ∀ signal, arena.Below id signal ↔ signal ∈ signals

theorem Stands.extend {before after : Arena} {id : NodeId} {signals : List Signal}
    (stands : before.Stands id signals) (grown : before.Extends after) (closed : before.Closed) :
    after.Stands id signals :=
  ⟨grown.lt_size stands.bound, fun signal =>
    (grown.below_iff closed stands.bound signal).trans (stands.below signal)⟩

theorem stands_allocate_gate {arena : Arena} (closed : arena.Closed) (gate : Gate)
    {children : List NodeId} {signals : List (List Signal)}
    (stands : List.Forall₂ arena.Stands children signals) :
    (arena.allocate ⟨.gate gate, children⟩).2.Stands (arena.allocate ⟨.gate gate, children⟩).1
      signals.flatten := by
  have found := arena.node?_allocate ⟨.gate gate, children⟩
  refine ⟨(lt_size_iff _ _).mpr ⟨_, found⟩, ?_⟩
  intro signal
  rw [below_iff found]
  simp only [reduceCtorEq, false_or, List.mem_flatten]
  have grown := arena.allocate_extends ⟨.gate gate, children⟩
  generalize (arena.allocate ⟨.gate gate, children⟩).2 = after at grown
  clear found
  induction stands with
  | nil => simp
  | cons first rest ih =>
      simp only [List.mem_cons, exists_eq_or_imp, ih, (first.extend grown closed).below]

theorem stands_allocate_leaf (arena : Arena) (signal : Signal) :
    (arena.allocate (.leaf signal)).2.Stands (arena.allocate (.leaf signal)).1 [signal] := by
  have found := arena.node?_allocate (.leaf signal)
  refine ⟨(lt_size_iff _ _).mpr ⟨_, found⟩, ?_⟩
  intro other
  rw [below_iff found]
  simp [Node.leaf, eq_comm]

theorem closed_empty : empty.Closed := by
  intro id node found
  simp [empty, node?] at found

end Arena

end GateLevel
