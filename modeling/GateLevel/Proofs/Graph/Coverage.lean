import GateLevel.Graph.Analysis
import GateLevel.Proofs.Graph.Closure
import GateLevel.Proofs.Graph.Sharing
import GateLevel.Proofs.Graph.Traversal

/-! Whatever a target sees in the graph, going through any number of flip-flops, is met by a walk
from the outputs, although the walk enters every flip-flop once. -/

namespace GateLevel

namespace Roots

def root? (roots : Roots) : Target → Option NodeId
  | .output index => roots.outputs[index]?
  | .flipflop index => roots.flipflops[index]?

def Finds (roots : Roots) (target : Target) (signal : Signal) : Prop :=
  ∃ root, roots.root? target = some root ∧ roots.arena.Below root signal

inductive Sees (roots : Roots) : Target → Signal → Prop
  | direct {target signal} : roots.Finds target signal → Sees roots target signal
  | through {target index signal} : roots.Finds target (.flipflop index) →
      Sees roots (.flipflop index) signal → Sees roots target signal

variable {roots : Roots}

theorem Sees.trans {target : Target} {seen : Signal} {index : Nat} {signal : Signal}
    (flipflop : roots.Sees target seen) (same : seen = .flipflop index)
    (beyond : roots.Sees (.flipflop index) signal) : roots.Sees target signal := by
  induction flipflop with
  | direct found => exact .through (same ▸ found) beyond
  | through found _ ih => exact .through found (ih same)

end Roots

namespace Walker

variable {roots : Roots} {before middle after : Walker}

structure Grows (before after : Walker) : Prop where
  entered : ∀ index ∈ before.entered, index ∈ after.entered
  sightings : ∀ sighting ∈ before.sightings, sighting ∈ after.sightings
  left : ∀ index ∈ before.entered, .flipflop index ∉ before.hierarchy →
    .flipflop index ∉ after.hierarchy ∧
      ∀ sighting ∈ after.sightings, .flipflop index ∈ sighting.under →
        sighting ∈ before.sightings

theorem Grows.trans (front : Grows before middle) (back : Grows middle after) :
    Grows before after := by
  refine ⟨fun index member => back.entered index (front.entered index member),
    fun sighting member => back.sightings sighting (front.sightings sighting member), ?_⟩
  intro index member outside
  obtain ⟨stays, none⟩ := front.left index member outside
  obtain ⟨away, later⟩ := back.left index (front.entered index member) stays
  exact ⟨away, fun sighting present under =>
    none sighting (later sighting present under) under⟩

theorem Frame.grows (frame : Frame before after) : Grows before after := by
  refine ⟨frame.entered, fun _ => frame.mem_sightings, ?_⟩
  intro index member outside
  obtain ⟨new, same, unders⟩ := frame.sightings
  refine ⟨frame.hierarchy ▸ outside, ?_⟩
  intro sighting present under
  rw [same] at present
  rcases List.mem_append.mp present with later | earlier
  · rcases (unders sighting later).2 _ under with walked | ⟨other, flipflop, fresh, _⟩
    · exact absurd walked outside
    · exact absurd (Target.flipflop.inj flipflop ▸ member) fresh
  · exact earlier

theorem grows_of_same (entered : after.entered = before.entered)
    (sightings : after.sightings = before.sightings)
    (hierarchy : ∀ index, .flipflop index ∈ after.hierarchy → .flipflop index ∈ before.hierarchy) :
    Grows before after := by
  refine ⟨?_, ?_, ?_⟩
  · rw [entered]
    exact fun _ member => member
  · rw [sightings]
    exact fun _ member => member
  · intro index _ outside
    rw [sightings]
    exact ⟨fun walked => outside (hierarchy index walked), fun _ member _ => member⟩

theorem grows_pushToken (walker : Walker) (token : Token) : Grows walker (walker.pushToken token) :=
  grows_of_same rfl rfl fun _ walked => walked

theorem grows_popToken (walker : Walker) : Grows walker walker.popToken :=
  grows_of_same rfl rfl fun _ walked => walked

theorem grows_popTarget (walker : Walker) : Grows walker walker.popTarget :=
  grows_of_same rfl rfl fun _ => List.mem_of_mem_tail

theorem grows_pushOutput (walker : Walker) (index : Nat) :
    Grows walker (walker.pushTarget (.output index)) := by
  refine grows_of_same rfl rfl ?_
  intro other walked
  simpa [pushTarget] using walked

theorem grows_meet (walker : Walker) (token : Token) : Grows walker (walker.meet token) := by
  obtain ⟨new, same, unders⟩ := walker.meet_sightings token
  refine ⟨by simp, fun sighting member => same ▸ List.mem_append_right new member, ?_⟩
  intro index _ outside
  rw [meet_hierarchy, same]
  refine ⟨outside, ?_⟩
  intro sighting member walked
  rcases List.mem_append.mp member with now | earlier
  · exact absurd ((unders sighting now).2 ▸ walked) outside
  · exact earlier

theorem grows_descend (walker : Walker) {index : Nat} (fresh : index ∉ walker.entered) :
    Grows walker (walker.descend index) := by
  refine ⟨fun _ member => List.mem_cons_of_mem _ member, fun _ member => member, ?_⟩
  intro other member outside
  refine ⟨?_, fun _ present _ => present⟩
  intro walked
  rcases List.mem_cons.mp walked with same | earlier
  · exact fresh (Target.flipflop.inj same ▸ member)
  · exact outside earlier

def Passes (walker : Walker) (index : Nat) (target : Target) : Prop :=
  target = .flipflop index ∨
    (∃ under, .reuse index under ∈ walker.sightings ∧ target ∈ under) ∨
    (.flipflop index ∉ walker.hierarchy ∧
      ∀ sighting ∈ walker.sightings, .flipflop index ∈ sighting.under → target ∈ sighting.under)

def Met (walker : Walker) (target : Target) : Signal → Prop
  | .input index => ∃ trail under, .input index trail under ∈ walker.sightings ∧ target ∈ under
  | .output _ => True
  | .flipflop index => index ∈ walker.entered ∧ walker.Passes index target

theorem Met.grow {target : Target} {signal : Signal} (met : before.Met target signal)
    (grows : Grows before after) : after.Met target signal := by
  cases signal with
  | input index =>
      obtain ⟨trail, under, member, walked⟩ := met
      exact ⟨trail, under, grows.sightings _ member, walked⟩
  | output index => trivial
  | flipflop index =>
      obtain ⟨entered, same | ⟨under, member, walked⟩ | ⟨outside, all⟩⟩ := met
      · exact ⟨grows.entered index entered, Or.inl same⟩
      · exact ⟨grows.entered index entered,
          Or.inr (Or.inl ⟨under, grows.sightings _ member, walked⟩)⟩
      · obtain ⟨stays, none⟩ := grows.left index entered outside
        exact ⟨grows.entered index entered, Or.inr (Or.inr ⟨stays,
          fun sighting member under => all sighting (none sighting member under) under⟩)⟩

def Covers (roots : Roots) (walker : Walker) (target : Target) (id : NodeId) : Prop :=
  ∀ signal, roots.arena.Below id signal → walker.Met target signal

theorem Covers.grow {target : Target} {id : NodeId} (covers : Covers roots before target id)
    (grows : Grows before after) : Covers roots after target id :=
  fun signal below => (covers signal below).grow grows

theorem covers_of_children {walker : Walker} {target : Target} {id : NodeId} {node : Node}
    (found : roots.arena.node? id = some node)
    (own : ∀ signal, node.token = .signal signal → walker.Met target signal)
    (children : ∀ child ∈ node.children, Covers roots walker target child) :
    Covers roots walker target id := by
  intro signal below
  rcases (Arena.below_iff found signal).mp below with same | ⟨child, member, below⟩
  · exact own signal same
  · exact children child member signal below

theorem met_meet {walker : Walker} {target : Target} (walked : target ∈ walker.hierarchy)
    {signal : Signal} (entered : ∀ index, signal = .flipflop index → index ∈ walker.entered) :
    (walker.meet (.signal signal)).Met target signal := by
  cases signal with
  | input index => exact ⟨_, walker.hierarchy, List.mem_cons_self .., walked⟩
  | output index => trivial
  | flipflop index =>
      exact ⟨entered index rfl,
        Or.inr (Or.inl ⟨walker.hierarchy, List.mem_cons_self .., walked⟩)⟩

theorem passes_of_descend {walker inside : Walker} {index : Nat} (sane : walker.Sane)
    (fresh : index ∉ walker.entered)
    (frame : Frame (walker.descend index) inside) {target : Target}
    (walked : target ∈ walker.hierarchy) :
    inside.popTarget.Passes index target := by
  refine Or.inr (Or.inr ⟨?_, ?_⟩)
  · rw [popTarget, frame.hierarchy]
    exact fun above => fresh (sane.hierarchy index above)
  · intro sighting member under
    obtain ⟨new, same, unders⟩ := frame.sightings
    rw [popTarget, same] at member
    rcases List.mem_append.mp member with later | earlier
    · exact (unders sighting later).1 target (List.mem_cons_of_mem _ walked)
    · exact absurd (sane.sightings sighting earlier index under) fresh

end Walker

namespace Walks

open Walker

variable {roots : Roots}

theorem covers_cons {id : NodeId} {rest : List NodeId} {node : Node} {walker below after : Walker}
    (found : roots.arena.node? id = some node) (frame : Frame walker below.popToken)
    (own : ∀ target ∈ walker.hierarchy, ∀ signal, node.token = .signal signal →
      below.Met target signal)
    (children : ∀ target ∈ walker.hierarchy, ∀ child ∈ node.children,
      Covers roots below target child)
    (outer : Walks roots rest below.popToken after)
    (later : ∀ target ∈ below.popToken.hierarchy, ∀ other ∈ rest,
      Covers roots after target other) :
    ∀ target ∈ walker.hierarchy, ∀ other ∈ id :: rest, Covers roots after target other := by
  intro target walked other member
  rcases List.mem_cons.mp member with rfl | member
  · exact (covers_of_children found (own target walked) (children target walked)).grow
      ((grows_popToken below).trans outer.frame.grows)
  · exact later target (frame.hierarchy ▸ walked) other member

/-- A walk covers its nodes for all targets being walked. -/
theorem covers {ids : List NodeId} {before after : Walker} (walks : Walks roots ids before after)
    (sane : before.Sane) :
    ∀ target ∈ before.hierarchy, ∀ id ∈ ids, Covers roots after target id := by
  induction walks with
  | nil => simp
  | @pass id rest token children walker below after found entered inner outer ih later =>
      have frame := inner.frame.ofMeet
      refine covers_cons found frame ?_ ?_ outer (later (frame.sane sane))
      · rintro target walked signal rfl
        exact (met_meet walked fun index same => entered index (by rw [same])).grow
          inner.frame.grows
      · intro target walked child member
        exact ih sane.meet target (by simpa using walked) child member
  | @enter id rest index children root walker inside below after found fresh _ walk inner outer _
      ih later =>
      -- The root may lead back here through other flip-flops. What matters is that all sightings
      -- under this one were made while the targets outside were being walked.
      have entry := walk.frame.ofDescend fresh
      have frame := (entry.trans inner.frame).ofToken
      refine covers_cons found frame ?_ ?_ outer (later (frame.sane sane))
      · rintro target walked signal ⟨⟩
        have met : inside.popTarget.Met target (.flipflop index) :=
          ⟨walk.frame.entered index (List.mem_cons_self ..),
            passes_of_descend sane.pushToken fresh walk.frame walked⟩
        exact met.grow inner.frame.grows
      · intro target walked child member
        exact ih (entry.sane sane.pushToken) target (entry.hierarchy ▸ walked) child member

end Walks

namespace Walker

variable {roots : Roots} {before after : Walker}

def Covered (roots : Roots) (walker : Walker) (target : Target) : Prop :=
  ∃ root, roots.root? target = some root ∧ Covers roots walker target root

theorem Covered.grow {target : Target} (covered : Covered roots before target)
    (grows : Grows before after) : Covered roots after target := by
  obtain ⟨root, driven, covers⟩ := covered
  exact ⟨root, driven, covers.grow grows⟩

def Settled (roots : Roots) (walker : Walker) : Prop :=
  ∀ index ∈ walker.entered,
    .flipflop index ∈ walker.hierarchy ∨ Covered roots walker (.flipflop index)

theorem Settled.grow (settled : Settled roots before) (grows : Grows before after)
    (entered : after.entered = before.entered)
    (hierarchy : ∀ target ∈ before.hierarchy, target ∈ after.hierarchy) :
    Settled roots after := by
  intro index member
  rw [entered] at member
  exact (settled index member).imp (hierarchy _) fun covered => covered.grow grows

theorem Settled.descend {walker : Walker} (settled : Settled roots walker) {index : Nat}
    (fresh : index ∉ walker.entered) : Settled roots (walker.descend index) := by
  intro other member
  rcases List.mem_cons.mp member with rfl | earlier
  · exact Or.inl (List.mem_cons_self ..)
  · exact (settled other earlier).imp (List.mem_cons_of_mem _) fun covered =>
      covered.grow (grows_descend walker fresh)

theorem Settled.leave {inside : Walker} {target : Target} {above : List Target}
    (settled : Settled roots inside) (hierarchy : inside.hierarchy = target :: above)
    (covered : Covered roots inside target) : Settled roots inside.popTarget := by
  intro other member
  rcases settled other member with walked | covered
  · rw [hierarchy] at walked
    rcases List.mem_cons.mp walked with rfl | outer
    · exact Or.inr (covered.grow (grows_popTarget inside))
    · exact Or.inl (by rw [popTarget, hierarchy]; exact outer)
  · exact Or.inr (covered.grow (grows_popTarget inside))

end Walker

namespace Walks

open Walker

variable {roots : Roots}

theorem covered {root : NodeId} {before after : Walker} {target : Target} {above : List Target}
    (walks : Walks roots [root] before after) (sane : before.Sane)
    (hierarchy : before.hierarchy = target :: above) (driven : roots.root? target = some root) :
    Covered roots after target := by
  refine ⟨root, driven, walks.covers sane target ?_ root (List.mem_singleton_self root)⟩
  rw [hierarchy]
  exact List.mem_cons_self ..

theorem settled {ids : List NodeId} {before after : Walker} (walks : Walks roots ids before after)
    (sane : before.Sane) (start : Settled roots before) : Settled roots after := by
  have back {walker : Walker} (settled : Settled roots walker) : Settled roots walker.popToken :=
    settled.grow (grows_popToken walker) rfl fun _ walked => walked
  induction walks with
  | nil => exact start
  | @pass _ _ token _ walker _ _ _ _ inner _ ih later =>
      have met := start.grow (grows_meet walker token) (meet_entered ..) (by simp)
      exact later (inner.frame.ofMeet.sane sane) (back (ih sane.meet met))
  | @enter _ _ index _ _ walker _ _ _ _ fresh driven walk inner _ walkIh ih later =>
      have entry := walk.frame.ofDescend fresh
      have met := start.grow (grows_pushToken walker (.signal (.flipflop index))) rfl
        fun _ walked => walked
      have covered := walk.covered sane.pushToken.descend rfl driven
      have left := (walkIh sane.pushToken.descend (met.descend fresh)).leave
        walk.frame.hierarchy covered
      exact later ((entry.trans inner.frame).ofToken.sane sane)
        (back (ih (entry.sane sane.pushToken) left))

end Walks

end GateLevel
