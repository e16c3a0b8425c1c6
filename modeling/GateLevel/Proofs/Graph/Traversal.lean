import GateLevel.Graph.Walk
import Mathlib.Data.List.Basic

/-! A walk as a relation between the walker before and after it, and what every walk keeps: the
trail, the targets being walked, and all that has been met. -/

namespace GateLevel

namespace Sighting

def signal : Sighting → Signal
  | input index _ _ => .input index
  | reuse index _ => .flipflop index

def under : Sighting → List Target
  | input _ _ under => under
  | reuse _ under => under

end Sighting

namespace Walker

def meet (token : Token) (walker : Walker) : Walker :=
  match token with
  | .gate _ | .signal (.output _) => walker.pushToken token
  | .signal (.input index) => (walker.pushToken token).sightInput index
  | .signal (.flipflop index) => (walker.pushToken token).sightReuse index

def descend (index : Nat) (walker : Walker) : Walker :=
  (walker.enter index).pushTarget (.flipflop index)

@[simp] theorem meet_trail (token : Token) (walker : Walker) :
    (walker.meet token).trail = token :: walker.trail := by
  rcases token with gate | index | index | index <;> rfl

@[simp] theorem meet_hierarchy (token : Token) (walker : Walker) :
    (walker.meet token).hierarchy = walker.hierarchy := by
  rcases token with gate | index | index | index <;> rfl

@[simp] theorem meet_entered (token : Token) (walker : Walker) :
    (walker.meet token).entered = walker.entered := by
  rcases token with gate | index | index | index <;> rfl

theorem meet_sightings (token : Token) (walker : Walker) :
    ∃ new, (walker.meet token).sightings = new ++ walker.sightings ∧ ∀ sighting ∈ new,
      token = .signal sighting.signal ∧ sighting.under = walker.hierarchy := by
  rcases token with gate | index | index | index
  · exact ⟨[], rfl, by simp⟩
  · exact ⟨[.input index _ _], rfl, by simp [Sighting.signal, Sighting.under, pushToken]⟩
  · exact ⟨[], rfl, by simp⟩
  · exact ⟨[.reuse index _], rfl, by simp [Sighting.signal, Sighting.under, pushToken]⟩

end Walker

inductive Walks (roots : Roots) : List NodeId → Walker → Walker → Prop
  | nil {walker} : Walks roots [] walker walker
  | pass {id rest token children walker below after} :
      roots.arena.node? id = some ⟨token, children⟩ →
      (∀ index, token = .signal (.flipflop index) → index ∈ walker.entered) →
      Walks roots children (walker.meet token) below →
      Walks roots rest below.popToken after → Walks roots (id :: rest) walker after
  | enter {id rest index children root walker inside below after} :
      roots.arena.node? id = some ⟨.signal (.flipflop index), children⟩ →
      index ∉ walker.entered → roots.flipflops[index]? = some root →
      Walks roots [root] ((walker.pushToken (.signal (.flipflop index))).descend index) inside →
      Walks roots children inside.popTarget below →
      Walks roots rest below.popToken after → Walks roots (id :: rest) walker after

namespace Walks

variable {roots : Roots}

theorem cons {id : NodeId} {rest : List NodeId} {walker middle after : Walker}
    (front : Walks roots [id] walker middle) (back : Walks roots rest middle after) :
    Walks roots (id :: rest) walker after := by
  cases front with
  | pass node entered below done =>
      cases done
      exact .pass node entered below back
  | enter node fresh root inside below done =>
      cases done
      exact .enter node fresh root inside below back

end Walks

namespace Walker

variable {roots : Roots}

theorem walks_of_foldlM {depth : Nat}
    (single : ∀ id (walker after : Walker), walk roots depth id walker = .ok after →
      Walks roots [id] walker after)
    {children : List NodeId} {walker after : Walker}
    (walked : children.foldlM (fun walker child => walk roots depth child walker) walker =
      .ok after) : Walks roots children walker after := by
  induction children generalizing walker with
  | nil =>
      rw [List.foldlM_nil] at walked
      cases walked
      exact .nil
  | cons child rest ih =>
      rw [List.foldlM_cons] at walked
      cases first : walk roots depth child walker with
      | error fault => simp [first, bind, Except.bind] at walked
      | ok middle =>
          simp only [first, bind, Except.bind] at walked
          exact (single child walker middle first).cons (ih walked)

theorem walks_of_walk {depth : Nat} {id : NodeId} {walker after : Walker}
    (walked : walk roots depth id walker = .ok after) : Walks roots [id] walker after := by
  induction depth generalizing id walker after with
  | zero => simp [walk] at walked
  | succ depth ih =>
      have below {children : List NodeId} {start finish : Walker}
          (ended : children.foldlM (fun walker child => walk roots depth child walker) start =
            .ok finish) : Walks roots children start finish :=
        walks_of_foldlM (fun _ _ _ => ih) ended
      rw [walk] at walked
      cases found : roots.arena.node? id with
      | none => simp [found] at walked
      | some node =>
          obtain ⟨token, children⟩ := node
          simp only [found, bind, Except.bind, pure, Except.pure] at walked
          rcases token with gate | index | index | index
          · simp only at walked
            split at walked <;> cases walked
            rename_i finish ended
            exact .pass found (by simp) (below ended) .nil
          · simp only at walked
            split at walked <;> cases walked
            rename_i finish ended
            exact .pass found (by simp) (below ended) .nil
          · simp only at walked
            split at walked <;> cases walked
            rename_i finish ended
            exact .pass found (by simp) (below ended) .nil
          · simp only [pushToken, List.contains_iff_mem] at walked
            split at walked
            · rename_i entered
              split at walked <;> cases walked
              rename_i finish ended
              refine .pass found ?_ (below ended) .nil
              rintro _ ⟨⟩
              exact entered
            · rename_i fresh
              split at walked
              · simp [throw, throwThe, MonadExceptOf.throw] at walked
              · rename_i root driven
                split at walked
                · simp at walked
                · rename_i inside entered
                  split at walked <;> cases walked
                  rename_i finish ended
                  exact .enter found fresh driven (ih entered) (below ended) .nil

theorem walks_of_walkOutput {index : Nat} {walker after : Walker}
    (walked : walker.walkOutput roots index = .ok after) :
    ∃ root inside, roots.outputs[index]? = some root ∧
      Walks roots [root] (walker.pushTarget (.output index)) inside ∧ after = inside.popTarget := by
  simp only [walkOutput] at walked
  cases driven : roots.outputs[index]? with
  | none => simp [driven] at walked
  | some root =>
      simp only [driven, bind, Except.bind, pure, Except.pure] at walked
      split at walked <;> cases walked
      rename_i inside entered
      exact ⟨root, inside, rfl, walks_of_walk entered, rfl⟩

structure Sane (walker : Walker) : Prop where
  hierarchy : ∀ index, .flipflop index ∈ walker.hierarchy → index ∈ walker.entered
  sightings : ∀ sighting ∈ walker.sightings, ∀ index, .flipflop index ∈ sighting.under →
    index ∈ walker.entered

namespace Sane

variable {walker : Walker}

theorem pushToken (sane : walker.Sane) {token : Token} : (walker.pushToken token).Sane :=
  ⟨sane.hierarchy, sane.sightings⟩

theorem meet (sane : walker.Sane) {token : Token} : (walker.meet token).Sane := by
  obtain ⟨new, same, unders⟩ := walker.meet_sightings token
  refine ⟨by simpa using sane.hierarchy, ?_⟩
  intro sighting member
  rw [same] at member
  rw [meet_entered]
  rcases List.mem_append.mp member with now | earlier
  · rw [(unders sighting now).2]
    exact sane.hierarchy
  · exact sane.sightings sighting earlier

theorem pushOutput (sane : walker.Sane) {index : Nat} :
    (walker.pushTarget (.output index)).Sane := by
  refine ⟨?_, sane.sightings⟩
  intro other walked
  rcases List.mem_cons.mp walked with same | earlier
  · simp at same
  · exact sane.hierarchy other earlier

theorem descend (sane : walker.Sane) {index : Nat} : (walker.descend index).Sane := by
  refine ⟨?_, fun sighting member other under =>
    List.mem_cons_of_mem _ (sane.sightings sighting member other under)⟩
  intro other walked
  rcases List.mem_cons.mp walked with same | earlier
  · rw [Target.flipflop.inj same]
    exact List.mem_cons_self ..
  · exact List.mem_cons_of_mem _ (sane.hierarchy other earlier)

theorem popTarget (sane : walker.Sane) : walker.popTarget.Sane :=
  ⟨fun index walked => sane.hierarchy index (List.mem_of_mem_tail walked), sane.sightings⟩

end Sane

structure Frame (before after : Walker) : Prop where
  trail : after.trail = before.trail
  hierarchy : after.hierarchy = before.hierarchy
  entered : ∀ index ∈ before.entered, index ∈ after.entered
  sightings : ∃ new, after.sightings = new ++ before.sightings ∧ ∀ sighting ∈ new,
    (∀ target ∈ before.hierarchy, target ∈ sighting.under) ∧
      ∀ target ∈ sighting.under, target ∈ before.hierarchy ∨
        ∃ index, target = .flipflop index ∧ index ∉ before.entered ∧ index ∈ after.entered

namespace Frame

variable {before middle after : Walker}

theorem refl (walker : Walker) : Frame walker walker :=
  ⟨rfl, rfl, fun _ member => member, [], rfl, by simp⟩

theorem trans (front : Frame before middle) (back : Frame middle after) :
    Frame before after := by
  obtain ⟨early, earlyEq, earlyUnder⟩ := front.sightings
  obtain ⟨late, lateEq, lateUnder⟩ := back.sightings
  refine ⟨back.trail.trans front.trail, back.hierarchy.trans front.hierarchy,
    fun index member => back.entered index (front.entered index member), late ++ early,
    by rw [lateEq, earlyEq, List.append_assoc], ?_⟩
  intro sighting member
  rcases List.mem_append.mp member with new | old
  · obtain ⟨above, others⟩ := lateUnder sighting new
    rw [front.hierarchy] at above others
    refine ⟨above, fun target under => (others target under).imp_right ?_⟩
    rintro ⟨index, same, fresh, present⟩
    exact ⟨index, same, fun old => fresh (front.entered index old), present⟩
  · obtain ⟨above, others⟩ := earlyUnder sighting old
    refine ⟨above, fun target under => (others target under).imp_right ?_⟩
    rintro ⟨index, same, fresh, present⟩
    exact ⟨index, same, fresh, back.entered index present⟩

theorem mem_sightings (frame : Frame before after) {sighting : Sighting}
    (member : sighting ∈ before.sightings) : sighting ∈ after.sightings := by
  obtain ⟨new, same, _⟩ := frame.sightings
  rw [same]
  exact List.mem_append_right new member

theorem sane (frame : Frame before after) (sane : before.Sane) : after.Sane := by
  obtain ⟨new, same, unders⟩ := frame.sightings
  refine ⟨?_, ?_⟩
  · intro index walked
    rw [frame.hierarchy] at walked
    exact frame.entered index (sane.hierarchy index walked)
  · intro sighting member index under
    rw [same] at member
    rcases List.mem_append.mp member with later | earlier
    · rcases (unders sighting later).2 _ under with walked | ⟨other, flipflop, _, present⟩
      · exact frame.entered index (sane.hierarchy index walked)
      · rw [Target.flipflop.inj flipflop]
        exact present
    · exact frame.entered index (sane.sightings sighting earlier index under)

theorem ofToken {token : Token} (frame : Frame (before.pushToken token) after) :
    Frame before after.popToken := by
  refine ⟨?_, frame.hierarchy, frame.entered, frame.sightings⟩
  rw [Walker.popToken, frame.trail]
  rfl

theorem ofMeet {token : Token} (frame : Frame (before.meet token) after) :
    Frame before after.popToken := by
  obtain ⟨met, metEq, metUnder⟩ := before.meet_sightings token
  obtain ⟨new, newEq, newUnder⟩ := frame.sightings
  rw [meet_hierarchy, meet_entered] at newUnder
  refine ⟨?_, frame.hierarchy.trans (meet_hierarchy ..), fun index member => frame.entered index
    (by simpa using member), new ++ met, by rw [Walker.popToken, newEq, metEq,
    List.append_assoc], ?_⟩
  · rw [Walker.popToken, frame.trail, meet_trail, List.tail_cons]
  · intro sighting member
    rcases List.mem_append.mp member with later | now
    · exact newUnder sighting later
    · rw [(metUnder sighting now).2]
      exact ⟨fun _ above => above, fun _ above => Or.inl above⟩

theorem ofDescend {index : Nat} (frame : Frame (before.descend index) after)
    (fresh : index ∉ before.entered) : Frame before after.popTarget := by
  obtain ⟨new, newEq, newUnder⟩ := frame.sightings
  refine ⟨frame.trail, ?_, ?_, new, newEq, ?_⟩
  · rw [Walker.popTarget, frame.hierarchy]
    rfl
  · intro other member
    exact frame.entered other (List.mem_cons_of_mem _ member)
  · intro sighting member
    obtain ⟨above, others⟩ := newUnder sighting member
    refine ⟨fun target walked => above target (List.mem_cons_of_mem _ walked), ?_⟩
    intro target under
    rcases others target under with walked | ⟨other, same, unentered, present⟩
    · rcases List.mem_cons.mp walked with same | earlier
      · exact Or.inr ⟨index, same, fresh, frame.entered index (List.mem_cons_self ..)⟩
      · exact Or.inl earlier
    · exact Or.inr ⟨other, same, fun old => unentered (List.mem_cons_of_mem _ old), present⟩

end Frame

end Walker

namespace Walks

variable {roots : Roots}

theorem frame {ids : List NodeId} {before after : Walker} (walks : Walks roots ids before after) :
    Walker.Frame before after := by
  induction walks with
  | nil => exact .refl _
  | pass _ _ _ _ below rest => exact below.ofMeet.trans rest
  | enter _ fresh _ _ _ _ inside below rest =>
      exact ((inside.ofDescend fresh).trans below).ofToken.trans rest

end Walks

end GateLevel
