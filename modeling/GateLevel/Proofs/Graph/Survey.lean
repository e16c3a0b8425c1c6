import GateLevel.Graph.Analysis
import GateLevel.Proofs.Graph.Coverage

/-! The walks from the outputs, all together: the cone of every target that they meet holds
exactly the inputs that the target sees. -/

namespace GateLevel

namespace Roots

variable {roots : Roots}

def Within (roots : Roots) (target : Target) (id : NodeId) : Prop :=
  ∀ signal, roots.arena.Below id signal → roots.Sees target signal

theorem Within.child {target : Target} {id child : NodeId} {token : Token}
    {children : List NodeId} (within : roots.Within target id)
    (found : roots.arena.node? id = some ⟨token, children⟩) (member : child ∈ children) :
    roots.Within target child :=
  fun signal below => within signal (.child found member below)

end Roots

namespace Walker

variable {roots : Roots} {origin : Nat → Prop}

structure Truthful (roots : Roots) (origin : Nat → Prop) (walker : Walker) : Prop where
  sightings : ∀ sighting ∈ walker.sightings, ∀ target ∈ sighting.under,
    roots.Sees target sighting.signal
  entered : ∀ index ∈ walker.entered, ∃ output, origin output ∧
    roots.Sees (.output output) (.flipflop index)

namespace Truthful

variable {walker : Walker}

theorem pushToken (truthful : walker.Truthful roots origin) {token : Token} :
    (walker.pushToken token).Truthful roots origin :=
  ⟨truthful.sightings, truthful.entered⟩

theorem meet (truthful : walker.Truthful roots origin) {token : Token}
    (seen : ∀ signal, token = .signal signal → ∀ target ∈ walker.hierarchy,
      roots.Sees target signal) : (walker.meet token).Truthful roots origin := by
  obtain ⟨new, same, unders⟩ := walker.meet_sightings token
  refine ⟨?_, by simpa using truthful.entered⟩
  intro sighting member
  rw [same] at member
  rcases List.mem_append.mp member with now | earlier
  · obtain ⟨token, under⟩ := unders sighting now
    rw [under]
    exact seen _ token
  · exact truthful.sightings sighting earlier

theorem descend (truthful : walker.Truthful roots origin) {index output : Nat}
    (starts : origin output) (seen : roots.Sees (.output output) (.flipflop index)) :
    (walker.descend index).Truthful roots origin := by
  refine ⟨truthful.sightings, ?_⟩
  intro other member
  rcases List.mem_cons.mp member with rfl | earlier
  · exact ⟨output, starts, seen⟩
  · exact truthful.entered other earlier

theorem popTarget (truthful : walker.Truthful roots origin) :
    walker.popTarget.Truthful roots origin :=
  ⟨truthful.sightings, truthful.entered⟩

theorem popToken (truthful : walker.Truthful roots origin) :
    walker.popToken.Truthful roots origin :=
  ⟨truthful.sightings, truthful.entered⟩

end Truthful

end Walker

namespace Walks

open Walker

variable {roots : Roots} {origin : Nat → Prop}

theorem truthful {ids : List NodeId} {before after : Walker} {output : Nat}
    (walks : Walks roots ids before after) (start : before.Truthful roots origin)
    (starts : origin output) (walked : .output output ∈ before.hierarchy)
    (within : ∀ target ∈ before.hierarchy, ∀ id ∈ ids, roots.Within target id) :
    after.Truthful roots origin := by
  induction walks with
  | nil => exact start
  | @pass id rest token children walker below after found entered inner outer ih later =>
      have same := inner.frame.ofMeet.hierarchy
      have own := fun target above => within target above _ (List.mem_cons_self ..)
      have met : (walker.meet token).Truthful roots origin := start.meet (by
        rintro signal rfl target above
        exact own target above signal (.here found))
      have lower := ih met (by simpa using walked) (by
        intro target above child member
        rw [meet_hierarchy] at above
        exact (own target above).child found member)
      exact later lower.popToken (same ▸ walked) fun target above other member =>
        within target (same ▸ above) other (List.mem_cons_of_mem _ member)
  | @enter id rest index children root walker inside below after found fresh driven walk inner
      outer walkIh ih later =>
      have entry := walk.frame.ofDescend fresh
      have same := (entry.trans inner.frame).ofToken.hierarchy
      have own := fun target above => within target above id (List.mem_cons_self ..)
      have seen : ∀ target ∈ walker.hierarchy, roots.Sees target (.flipflop index) :=
        fun target above => own target above _ (.here found)
      have inwards := walkIh (start.pushToken.descend starts (seen _ walked))
        (List.mem_cons_of_mem _ walked) (by
          intro target above other member signal below
          rw [List.mem_singleton.mp member] at below
          have direct : roots.Sees (.flipflop index) signal := .direct ⟨root, driven, below⟩
          rcases List.mem_cons.mp above with rfl | outside
          · exact direct
          · exact (seen target outside).trans rfl direct)
      have lower := ih inwards.popTarget (entry.hierarchy ▸ walked) fun target above child member =>
        (own target (entry.hierarchy ▸ above)).child found member
      exact later lower.popToken (same ▸ walked) fun target above other member =>
        within target (same ▸ above) other (List.mem_cons_of_mem _ member)

end Walks

namespace Walker

variable {roots : Roots}

/-- What flows to a flip-flop flows on to every target that the flip-flop passes its cone to. -/
theorem Passes.flows {walker : Walker} {index flipflop : Nat} {target : Target}
    (passes : walker.Passes flipflop target)
    (flows : Cones.Flows walker.reuses (.ofSightings walker.sightings) index
      (.flipflop flipflop)) :
    Cones.Flows walker.reuses (.ofSightings walker.sightings) index target := by
  have join {under : List Target} {other : Nat} (member : .reuse other under ∈ walker.sightings)
      (walked : target ∈ under)
      (given : Cones.Flows walker.reuses (.ofSightings walker.sightings) index
        (.flipflop other)) :
      Cones.Flows walker.reuses (.ofSightings walker.sightings) index target := by
    by_cases same : target = .flipflop other
    · exact same ▸ given
    · have joined : (⟨other, target⟩ : Reuse) ∈ walker.reuses :=
        (walker.mem_reuses_iff _).mpr ⟨under, member, walked, same⟩
      exact .pass joined given
  rcases passes with same | ⟨under, member, walked⟩ | ⟨_, all⟩
  · exact same ▸ flows
  · exact join member walked flows
  · -- Nothing was sighted under the flip-flop alone, so what brought the input there brought it
    -- to the target as well.
    generalize same : Target.flipflop flipflop = source at flows
    cases flows with
    | start present =>
        obtain ⟨trail, under, member, walked⟩ :=
          (Cones.mem_cone_ofSightings_iff ..).mp present
        exact .start ((Cones.mem_cone_ofSightings_iff ..).mpr
          ⟨trail, under, member, all _ member (same ▸ walked)⟩)
    | @pass reuse joined before =>
        obtain ⟨under, member, walked, _⟩ := (walker.mem_reuses_iff reuse).mp joined
        exact join member (all _ member (same ▸ walked)) before

theorem walkAll_induction {motive : List Nat → Walker → Prop} (begins : motive [] start)
    (step : ∀ {done walker output after}, motive done walker →
      walker.walkOutput roots output = .ok after → motive (done ++ [output]) after)
    {outputs : List Nat} {after : Walker} (walked : Walker.walkAll roots outputs = .ok after) :
    motive outputs after := by
  have general : ∀ (rest done : List Nat) (walker : Walker), motive done walker →
      rest.foldlM (fun walker index => walker.walkOutput roots index) walker = .ok after →
      motive (done ++ rest) after := by
    intro rest
    induction rest with
    | nil =>
        intro done walker holds ended
        cases ended
        simpa using holds
    | cons output rest ih =>
        intro done walker holds ended
        rw [List.foldlM_cons] at ended
        cases first : walker.walkOutput roots output with
        | error fault => simp [first, bind, Except.bind] at ended
        | ok middle =>
            simp only [first, bind, Except.bind] at ended
            have whole := ih (done ++ [output]) middle (step holds first) ended
            rwa [List.append_assoc, List.singleton_append] at whole
  exact general outputs [] Walker.start begins walked

structure Surveyed (roots : Roots) (outputs : List Nat) (walker : Walker) : Prop where
  hierarchy : walker.hierarchy = []
  sane : walker.Sane
  settled : Settled roots walker
  covered : ∀ output ∈ outputs, Covered roots walker (.output output)
  truthful : walker.Truthful roots (· ∈ outputs)

namespace Surveyed

theorem start (roots : Roots) : Surveyed roots [] start := by
  refine ⟨rfl, ⟨?_, ?_⟩, ?_, ?_, ⟨?_, ?_⟩⟩ <;> simp [Walker.start, Settled]

variable {outputs : List Nat} {walker after : Walker}

theorem walkOutput (surveyed : Surveyed roots outputs walker) {output : Nat}
    (walked : walker.walkOutput roots output = .ok after) :
    Surveyed roots (outputs ++ [output]) after := by
  obtain ⟨root, inside, driven, walks, rfl⟩ := walks_of_walkOutput walked
  have sane : (walker.pushTarget (.output output)).Sane := surveyed.sane.pushOutput
  have begins := grows_pushOutput walker output
  have ends := grows_popTarget inside
  have alone : inside.hierarchy = [.output output] := by
    rw [walks.frame.hierarchy, pushTarget, surveyed.hierarchy]
  have own : Covered roots inside (.output output) := walks.covered sane rfl driven
  refine ⟨by rw [popTarget, alone]; rfl, (walks.frame.sane sane).popTarget, ?_, ?_, ?_⟩
  · have settled := surveyed.settled.grow begins rfl fun _ => List.mem_cons_of_mem _
    exact (walks.settled sane settled).leave alone own
  · intro other member
    rcases List.mem_append.mp member with earlier | now
    · exact (surveyed.covered other earlier).grow
        ((begins.trans walks.frame.grows).trans ends)
    · rw [List.mem_singleton.mp now]
      exact own.grow ends
  · have truthful : (walker.pushTarget (.output output)).Truthful roots
        (· ∈ outputs ++ [output]) := by
      refine ⟨surveyed.truthful.sightings, ?_⟩
      intro index member
      obtain ⟨other, earlier, seen⟩ := surveyed.truthful.entered index member
      exact ⟨other, List.mem_append_left _ earlier, seen⟩
    refine (walks.truthful truthful (List.mem_append_right _ (List.mem_singleton_self output))
      (List.mem_cons_self ..) ?_).popTarget
    intro target above id member signal below
    rw [pushTarget, surveyed.hierarchy, List.mem_singleton] at above
    rw [List.mem_singleton] at member
    subst above member
    exact .direct ⟨_, driven, below⟩

theorem walkAll {outputs : List Nat} (walked : Walker.walkAll roots outputs = .ok after) :
    Surveyed roots outputs after :=
  walkAll_induction (.start roots) (fun surveyed => surveyed.walkOutput) walked

def Reached (outputs : List Nat) (walker : Walker) : Target → Prop
  | .output index => index ∈ outputs
  | .flipflop index => index ∈ walker.entered

theorem covered_of_reached (surveyed : Surveyed roots outputs walker) {target : Target}
    (reached : Reached outputs walker target) : Covered roots walker target := by
  cases target with
  | output index => exact surveyed.covered index reached
  | flipflop index =>
      rcases surveyed.settled index reached with walked | covered
      · simp [surveyed.hierarchy] at walked
      · exact covered

theorem met_of_finds (surveyed : Surveyed roots outputs walker) {target : Target}
    (reached : Reached outputs walker target) {signal : Signal}
    (finds : roots.Finds target signal) : walker.Met target signal := by
  obtain ⟨root, driven, below⟩ := finds
  obtain ⟨same, found, covers⟩ := surveyed.covered_of_reached reached
  rw [driven, Option.some.injEq] at found
  exact covers signal (found ▸ below)

theorem entered_of_sees (surveyed : Surveyed roots outputs walker) {target : Target}
    (reached : Reached outputs walker target) {signal : Signal} (sees : roots.Sees target signal)
    {index : Nat} (flipflop : signal = .flipflop index) : index ∈ walker.entered := by
  induction sees with
  | direct finds =>
      subst flipflop
      exact (surveyed.met_of_finds reached finds).1
  | through finds _ ih => exact ih (surveyed.met_of_finds reached finds).1 flipflop

theorem entered_iff (surveyed : Surveyed roots outputs walker) (index : Nat) :
    index ∈ walker.entered ↔
      ∃ output ∈ outputs, roots.Sees (.output output) (.flipflop index) := by
  constructor
  · exact surveyed.truthful.entered index
  · rintro ⟨output, member, sees⟩
    have reached : Reached outputs walker (.output output) := member
    exact surveyed.entered_of_sees reached sees rfl

theorem sees_of_mem_cone (surveyed : Surveyed roots outputs walker) {target : Target}
    {index : Nat} (member : index ∈ walker.cones.cone target) :
    roots.Sees target (.input index) := by
  rw [mem_cones_iff] at member
  induction member with
  | start present =>
      obtain ⟨trail, under, sighted, walked⟩ := (Cones.mem_cone_ofSightings_iff ..).mp present
      exact surveyed.truthful.sightings _ sighted _ walked
  | @pass reuse joined _ ih =>
      obtain ⟨under, sighted, walked, _⟩ := (walker.mem_reuses_iff reuse).mp joined
      exact (surveyed.truthful.sightings _ sighted _ walked).trans rfl ih

theorem mem_cone_of_sees (surveyed : Surveyed roots outputs walker) {target : Target}
    (reached : Reached outputs walker target) {index : Nat}
    (sees : roots.Sees target (.input index)) : index ∈ walker.cones.cone target := by
  rw [mem_cones_iff]
  -- From the target that finds the input back to the one that is asked about.
  generalize same : Signal.input index = signal at sees
  induction sees with
  | direct finds =>
      subst same
      obtain ⟨trail, under, sighted, walked⟩ := surveyed.met_of_finds reached finds
      exact .start ((Cones.mem_cone_ofSightings_iff ..).mpr ⟨trail, under, sighted, walked⟩)
  | through finds _ ih =>
      obtain ⟨entered, passes⟩ := surveyed.met_of_finds reached finds
      exact passes.flows (ih entered same)

theorem entered_of_mem_cone (surveyed : Surveyed roots outputs walker) {index flipflop : Nat}
    (member : index ∈ walker.cones.cone (.flipflop flipflop)) : flipflop ∈ walker.entered := by
  rw [mem_cones_iff] at member
  generalize same : Target.flipflop flipflop = target at member
  cases member with
  | start present =>
      obtain ⟨trail, under, sighted, walked⟩ := (Cones.mem_cone_ofSightings_iff ..).mp present
      exact surveyed.sane.sightings _ sighted flipflop (same ▸ walked)
  | @pass reuse joined _ =>
      obtain ⟨under, sighted, walked, _⟩ := (walker.mem_reuses_iff reuse).mp joined
      exact surveyed.sane.sightings _ sighted flipflop (same ▸ walked)

end Surveyed

end Walker

end GateLevel
