import GateLevel.Proofs.Graph.Courses
import GateLevel.Proofs.Graph.Recording

/-! What a walker has met at each point of its walks, told by the turns that lead to this point.
Together the walks of all outputs meet just the direct paths. -/

namespace GateLevel

open Walker

variable {roots : Roots}

namespace Walks

/-- Every path below the walked nodes that goes through no flip-flop is met, behind the trail. -/
theorem mem_paths {ids : List NodeId} {before after : Walker} (walks : Walks roots ids before after)
    {id : NodeId} (member : id ∈ ids) {input : Nat} {turns : List Nat} {path : List Token}
    (course : roots.Course (.input input) id turns path) (combinational : Path.Combinational path) :
    before.trail.reverse ++ path ∈ after.paths := by
  induction walks generalizing id turns path with
  | nil => simp at member
  | @pass head rest token children walker below after found entered inner outer ih later =>
      have trail := inner.frame.ofMeet.trail
      rcases List.mem_cons.mp member with rfl | member
      · apply outer.frame.mem_paths
        cases course with
        | arrive same =>
            rw [found, Option.some.injEq, Node.mk.injEq] at same
            obtain ⟨rfl, rfl⟩ := same
            apply inner.frame.mem_paths
            rw [paths_meet_input]
            exact List.mem_append_right _ (List.mem_singleton_self _)
        | child same child course =>
            rw [found, Option.some.injEq, Node.mk.injEq] at same
            obtain ⟨rfl, rfl⟩ := same
            have lower := ih (List.mem_of_getElem? child) course fun index mentioned =>
              combinational index (List.mem_cons_of_mem _ mentioned)
            rw [meet_trail, List.reverse_cons, List.append_assoc] at lower
            exact lower
        | through => exact absurd (List.mem_cons_self ..) (combinational _)
      · rw [← trail]
        exact later member course combinational
  | @enter head rest index children root walker inside below after found fresh driven walk inner
      outer _ ih later =>
      have trail := ((walk.frame.ofDescend fresh).trans inner.frame).ofToken.trail
      rcases List.mem_cons.mp member with rfl | member
      · -- No course without flip-flops leads on from a flip-flop.
        cases course with
        | arrive same => simp [found] at same
        | child same => simp [found] at same
        | through => exact absurd (List.mem_cons_self ..) (combinational _)
      · rw [← trail]
        exact later member course combinational

end Walks

namespace Walker

structure Situated (roots : Roots) (walker : Walker) : Prop where
  sane : walker.Sane
  open_iff : ∀ index, .flipflop index ∈ walker.hierarchy ↔
    Token.signal (.flipflop index) ∈ walker.trail
  prompt : roots.Prompt walker.trail.reverse
  settled : Settled roots walker

def Recorded (roots : Roots) (walker : Walker) (index : Nat) : Prop :=
  ∃ turns path root, roots.Foremost index turns path ∧ roots.flipflops[index]? = some root ∧
    ∀ input beyond rest, roots.Course (.input input) root beyond rest →
      Path.Combinational rest → path ++ rest ∈ walker.paths

/-- The walker stands where the turns lead. It has entered just the flip-flops that simple paths
with lesser turns lead to, each of them as it should, and it has met direct paths only. -/
structure Progress (roots : Roots) (turns : List Nat) (walker : Walker) : Prop where
  entered_iff : ∀ index, index ∈ walker.entered ↔ roots.Earlier turns index
  direct : ∀ path ∈ walker.paths, roots.Direct path
  recorded : ∀ index ∈ walker.entered,
    .flipflop index ∈ walker.hierarchy ∨ walker.Recorded roots index

variable {walker before after : Walker} {turns : List Nat} {id : NodeId} {children : List NodeId}

theorem Situated.of_frame (situated : before.Situated roots) (frame : Frame before after)
    (settled : Settled roots after) : after.Situated roots := by
  refine ⟨frame.sane situated.sane, ?_, ?_, settled⟩
  · rw [frame.hierarchy, frame.trail]
    exact situated.open_iff
  · rw [frame.trail]
    exact situated.prompt

theorem Recorded.mono {index : Nat} (recorded : before.Recorded roots index)
    (kept : ∀ path ∈ before.paths, path ∈ after.paths) : after.Recorded roots index := by
  obtain ⟨turns, path, root, foremost, driven, met⟩ := recorded
  exact ⟨turns, path, root, foremost, driven, fun input beyond rest course combinational =>
    kept _ (met input beyond rest course combinational)⟩

namespace Situated

theorem meet_gate (situated : walker.Situated roots) (gate : Gate) :
    (walker.meet (.gate gate)).Situated roots := by
  refine ⟨situated.sane.meet, ?_, ?_, ?_⟩
  · intro index
    simpa using situated.open_iff index
  · rw [meet_trail, List.reverse_cons]
    exact situated.prompt.concat fun index same => by simp at same
  · exact situated.settled.grow (grows_meet walker _) (meet_entered ..) (by simp)

theorem not_mem_trail (situated : walker.Situated roots) {index : Nat}
    (fresh : index ∉ walker.entered) : Token.signal (.flipflop index) ∉ walker.trail := by
  rw [← situated.open_iff]
  exact fun above => fresh (situated.sane.hierarchy index above)

/-- A flip-flop that has not been entered yet is met along its foremost path. -/
theorem foremost (situated : walker.Situated roots) (progress : walker.Progress roots turns)
    (lies : roots.Lies turns walker.trail id) {index : Nat}
    (found : roots.arena.node? id = some ⟨.signal (.flipflop index), children⟩)
    (fresh : index ∉ walker.entered) :
    roots.Foremost index turns (walker.trail.reverse ++ [.signal (.flipflop index)]) := by
  refine ⟨lies.leads_iff.mpr ⟨rfl, children, found⟩, ?_, ?_⟩
  · apply situated.prompt.simple.concat
    rintro other same present
    rw [List.mem_reverse] at present
    exact situated.not_mem_trail fresh present
  · rwa [← progress.entered_iff]

theorem descend (situated : walker.Situated roots) {index : Nat} (fresh : index ∉ walker.entered)
    (foremost : roots.Foremost index turns
      (walker.trail.reverse ++ [.signal (.flipflop index)])) :
    ((walker.pushToken (.signal (.flipflop index))).descend index).Situated roots := by
  refine ⟨situated.sane.pushToken.descend, ?_, ?_, ?_⟩
  · intro other
    have same := situated.open_iff other
    simp only [Walker.descend, pushTarget, Walker.enter, pushToken, List.mem_cons,
      Target.flipflop.injEq, Token.signal.injEq, Signal.flipflop.injEq, same]
  · have pushed : roots.Prompt (walker.trail.reverse ++ [.signal (.flipflop index)]) := by
      apply situated.prompt.concat
      intro other same
      obtain rfl := Signal.flipflop.inj (Token.signal.inj same)
      exact ⟨turns, foremost⟩
    rwa [← List.reverse_cons] at pushed
  · have met := situated.settled.grow (grows_pushToken walker (.signal (.flipflop index))) rfl
      fun _ walked => walked
    exact met.descend fresh

/-- No simple path leads on from a flip-flop that was entered before to one that was not. -/
theorem entered_of_course (situated : walker.Situated roots) {index : Nat} {beyond : List Nat}
    {rest : List Token} (course : roots.Course (.flipflop index) id beyond rest)
    (below : ∀ other, roots.arena.Below id (.flipflop other) → other ∈ walker.entered)
    (simple : Path.Simple (walker.trail.reverse ++ rest)) : index ∈ walker.entered := by
  have closed : ∀ other, Token.signal (.flipflop other) ∈ rest →
      .flipflop other ∉ walker.hierarchy := by
    intro other behind above
    rw [situated.open_iff, ← List.mem_reverse] at above
    exact simple.not_mem_both above behind
  clear simple
  induction course with
  | arrive found => exact below index (.here found)
  | child found child _ ih =>
      refine ih ?_ ?_
      · exact fun other lower => below other (.child found (List.mem_of_getElem? child) lower)
      · exact fun other behind => closed other (List.mem_cons_of_mem _ behind)
  | @through id flipflop _ root _ _ found driven _ ih =>
      -- It is not being walked, as the path would meet it twice. So all below it is covered.
      have entered := below flipflop (.here found)
      refine ih ?_ ?_
      · rcases situated.settled flipflop entered with above | ⟨other, drives, covers⟩
        · exact absurd above (closed flipflop (List.mem_cons_self ..))
        · obtain rfl : root = other := Option.some.inj (driven.symm.trans drives)
          exact fun index lower => (covers _ lower).1
      · exact fun other behind => closed other (List.mem_cons_of_mem _ behind)

end Situated

namespace Progress

theorem meet (progress : walker.Progress roots turns) (situated : walker.Situated roots)
    (lies : roots.Lies turns walker.trail id) {token : Token}
    (found : roots.arena.node? id = some ⟨token, children⟩)
    (entered : ∀ index, token = .signal (.flipflop index) → index ∈ walker.entered) :
    (walker.meet token).Progress roots (turns ++ [0]) := by
  refine ⟨?_, ?_, ?_⟩
  · intro index
    rw [meet_entered, Roots.earlier_append_zero_iff, ← progress.entered_iff]
    refine (or_iff_left_of_imp ?_).symm
    -- With these very turns only the node itself can be a flip-flop.
    rintro ⟨path, leads, _⟩
    obtain ⟨_, other, same⟩ := lies.leads_iff.mp leads
    rw [found, Option.some.injEq, Node.mk.injEq] at same
    exact entered index same.1
  · intro path member
    rcases (walker.mem_paths_meet_iff token path).mp member with earlier | ⟨⟨input, rfl⟩, rfl⟩
    · exact progress.direct path earlier
    · exact ⟨⟨input, turns, lies.leads_iff.mpr ⟨rfl, children, found⟩⟩,
        situated.prompt.concat fun index same => by simp at same⟩
  · intro index member
    rw [meet_entered] at member
    rw [meet_hierarchy]
    exact (progress.recorded index member).imp_right fun recorded =>
      recorded.mono fun path earlier => (walker.mem_paths_meet_iff token path).mpr (Or.inl earlier)

theorem descend (progress : walker.Progress roots turns)
    (lies : roots.Lies turns walker.trail id) {index : Nat}
    (found : roots.arena.node? id = some ⟨.signal (.flipflop index), children⟩)
    (foremost : roots.Foremost index turns
      (walker.trail.reverse ++ [.signal (.flipflop index)])) :
    ((walker.pushToken (.signal (.flipflop index))).descend index).Progress roots
      (turns ++ [0]) := by
  refine ⟨?_, progress.direct, ?_⟩
  · intro other
    rw [Roots.earlier_append_zero_iff, ← progress.entered_iff, or_comm]
    refine List.mem_cons.trans (or_congr_left ?_)
    constructor
    · rintro rfl
      exact ⟨_, foremost.leads, foremost.simple⟩
    · rintro ⟨path, leads, _⟩
      obtain ⟨_, _, same⟩ := lies.leads_iff.mp leads
      simp only [found, Option.some.injEq, Node.mk.injEq, Token.signal.injEq,
        Signal.flipflop.injEq] at same
      exact same.1.symm
  · intro other member
    rcases List.mem_cons.mp member with rfl | earlier
    · exact Or.inl (List.mem_cons_self ..)
    · exact (progress.recorded other earlier).imp_left (List.mem_cons_of_mem _)

theorem leave {inside : Walker} (progress : inside.Progress roots turns) {index : Nat}
    {above : List Target} (hierarchy : inside.hierarchy = .flipflop index :: above)
    (recorded : inside.Recorded roots index) : inside.popTarget.Progress roots turns := by
  refine ⟨progress.entered_iff, progress.direct, ?_⟩
  intro other member
  rcases progress.recorded other member with walked | earlier
  · rw [hierarchy] at walked
    rcases List.mem_cons.mp walked with same | outer
    · obtain rfl := Target.flipflop.inj same
      exact Or.inr recorded
    · refine Or.inl ?_
      rw [popTarget, hierarchy]
      exact outer
  · exact Or.inr earlier

/-- Going up takes the next turn, if later turns below the node that is left lead nowhere new. -/
theorem up {below : Walker} {turn next : Nat}
    (progress : below.Progress roots (turns ++ [turn] ++ [next]))
    (rest : ∀ later beyond index path, next ≤ later →
      roots.Leads (.flipflop index) (turns ++ [turn] ++ later :: beyond) path →
      Path.Simple path → index ∈ below.entered) :
    below.popToken.Progress roots (turns ++ [turn + 1]) := by
  refine ⟨?_, progress.direct, progress.recorded⟩
  simp only [List.append_assoc, List.singleton_append] at progress rest
  intro index
  rw [Roots.earlier_append_succ_iff next, ← progress.entered_iff]
  refine (or_iff_left_of_imp ?_).symm
  rintro ⟨later, beyond, path, atLeast, leads, simple⟩
  exact rest later beyond index path atLeast leads simple

theorem up_gate {below : Walker} {trail : List Token} {turn : Nat} {gate : Gate}
    (progress : below.Progress roots (turns ++ [turn] ++ [children.length]))
    (lies : roots.Lies (turns ++ [turn]) trail id)
    (found : roots.arena.node? id = some ⟨.gate gate, children⟩) :
    below.popToken.Progress roots (turns ++ [turn + 1]) := by
  refine progress.up ?_
  intro later beyond index path past leads
  obtain ⟨_, _, course⟩ := (lies ..).mp leads
  obtain ⟨_, _, child, _⟩ := (Roots.course_gate_iff found).mp course
  have present := (List.getElem?_eq_some_iff.mp child).1
  omega

theorem up_root {inside : Walker} {trail : List Token} {turn index : Nat}
    (progress : inside.Progress roots (turns ++ [turn] ++ [1]))
    (lies : roots.Lies (turns ++ [turn]) trail id)
    (found : roots.arena.node? id = some ⟨.signal (.flipflop index), children⟩) :
    inside.popToken.Progress roots (turns ++ [turn + 1]) := by
  refine progress.up ?_
  intro later beyond other path past leads
  obtain ⟨_, _, course⟩ := (lies ..).mp leads
  have only := ((Roots.course_signal_iff found).mp course).1
  omega

/-- What lies beyond a flip-flop that was entered before has been entered too. -/
theorem up_leaf {turn : Nat} {signal : Signal}
    (progress : walker.Progress roots (turns ++ [turn])) (situated : walker.Situated roots)
    (lies : roots.Lies (turns ++ [turn]) walker.trail id)
    (found : roots.arena.node? id = some ⟨.signal signal, []⟩)
    (entered : ∀ index, signal = .flipflop index → index ∈ walker.entered) :
    (walker.meet (.signal signal)).popToken.Progress roots (turns ++ [turn + 1]) := by
  have reused : ∀ index, Token.signal signal = .signal (.flipflop index) →
      index ∈ walker.entered :=
    fun index same => entered index (Token.signal.inj same)
  refine (progress.meet situated lies found reused).up ?_
  intro later beyond index path _ leads simple
  obtain ⟨_, rfl, course⟩ := (lies ..).mp leads
  rw [meet_entered]
  refine situated.entered_of_course course ?_ simple
  intro other lower
  rcases (Arena.below_iff found _).mp lower with same | ⟨_, none, _⟩
  · exact reused other same
  · simp at none

end Progress

end Walker

namespace Walks

theorem situated {ids : List NodeId} {before after : Walker} (walks : Walks roots ids before after)
    (situated : before.Situated roots) : after.Situated roots :=
  situated.of_frame walks.frame (walks.settled situated.sane situated.settled)

theorem recorded {root : NodeId} {walker inside : Walker} {index : Nat} {turns : List Nat}
    (walk :
      Walks roots [root] ((walker.pushToken (.signal (.flipflop index))).descend index) inside)
    (driven : roots.flipflops[index]? = some root)
    (foremost : roots.Foremost index turns
      (walker.trail.reverse ++ [.signal (.flipflop index)])) : inside.Recorded roots index := by
  refine ⟨turns, _, root, foremost, driven, ?_⟩
  intro input beyond rest course combinational
  have met := walk.mem_paths (List.mem_singleton_self root) course combinational
  rwa [← List.reverse_cons]

/-- From walk to walk a walker goes on through the paths in the order of their turns. -/
theorem progress {ids : List NodeId} {before after : Walker} {turns : List Nat} {first : Nat}
    (bare : roots.Bare) (walks : Walks roots ids before after)
    (row : roots.Row turns first before.trail ids) (situated : before.Situated roots)
    (progress : before.Progress roots (turns ++ [first])) :
    after.Progress roots (turns ++ [first + ids.length]) := by
  induction walks generalizing turns first with
  | nil => exact progress
  | @pass id rest token children walker below after found entered inner outer ih later =>
      have moved := (Walks.pass found entered inner .nil).situated situated
      -- A gate is left when all its children have been walked. Any other node has none.
      have left : below.popToken.Progress roots (turns ++ [first + 1]) := by
        cases token with
        | gate gate =>
            have lower := ih (row.head.row found) (situated.meet_gate gate)
              (progress.meet situated row.head found entered)
            rw [Nat.zero_add] at lower
            exact lower.up_gate row.head found
        | signal signal =>
            obtain rfl := bare id signal children found
            cases inner
            exact progress.up_leaf situated row.head found fun index same =>
              entered index (congrArg _ same)
      have whole := later (inner.frame.ofMeet.trail ▸ row.tail) moved left
      rwa [Nat.add_assoc, Nat.add_comm 1] at whole
  | @enter id rest index children root walker inside below after found fresh driven walk inner
      outer walkIh ih later =>
      have moved := (Walks.enter found fresh driven walk inner .nil).situated situated
      have frame := (walk.frame.ofDescend fresh).ofToken
      obtain rfl := bare id _ children found
      cases inner
      have foremost := situated.foremost progress row.head found fresh
      have left : inside.popTarget.popToken.Progress roots (turns ++ [first + 1]) := by
        have lower := walkIh (.single (row.head.through found driven))
          (situated.descend fresh foremost) (progress.descend row.head found foremost)
        rw [Nat.zero_add] at lower
        have outside := lower.leave walk.frame.hierarchy (walk.recorded driven foremost)
        exact outside.up_root row.head found
      have whole := later (frame.trail ▸ row.tail) moved left
      rwa [Nat.add_assoc, Nat.add_comm 1] at whole

end Walks

namespace Walker

structure Advanced (roots : Roots) (outputs : List Nat) (walker : Walker) : Prop where
  surveyed : Surveyed roots outputs walker
  trail : walker.trail = []
  progress : outputs = List.range outputs.length → walker.Progress roots [outputs.length]
  combinational : ∀ output ∈ outputs, ∀ root, roots.outputs[output]? = some root →
    ∀ input turns path, roots.Course (.input input) root turns path →
      Path.Combinational path → path ∈ walker.paths

namespace Advanced

variable {walker after : Walker} {outputs : List Nat} {output : Nat}

theorem start (roots : Roots) : Advanced roots [] start := by
  refine ⟨.start roots, rfl, fun _ => ⟨?_, ?_, ?_⟩, by simp⟩
  · intro index
    constructor
    · intro member
      simp [Walker.start] at member
    · rintro ⟨_, path, ⟨_, _⟩, _, less⟩
      simp [List.cons_lt_cons_iff] at less
  · simp [Walker.start, paths, Sighting.paths]
  · simp [Walker.start]

theorem situated (advanced : Advanced roots outputs walker) :
    (walker.pushTarget (.output output)).Situated roots := by
  refine ⟨advanced.surveyed.sane.pushOutput, ?_, ?_, ?_⟩
  · simp [pushTarget, advanced.surveyed.hierarchy, advanced.trail]
  · rw [pushTarget, advanced.trail]
    exact .nil roots
  · exact advanced.surveyed.settled.grow (grows_pushOutput walker output) rfl
      fun _ => List.mem_cons_of_mem _

theorem walkOutput (bare : roots.Bare) (advanced : Advanced roots outputs walker)
    (walked : walker.walkOutput roots output = .ok after) :
    Advanced roots (outputs ++ [output]) after := by
  have surveyed := advanced.surveyed.walkOutput walked
  obtain ⟨root, inside, driven, walks, rfl⟩ := walks_of_walkOutput walked
  have hierarchy := walks.frame.hierarchy
  rw [pushTarget, advanced.surveyed.hierarchy] at hierarchy
  refine ⟨surveyed, walks.frame.trail.trans advanced.trail, ?_, ?_⟩
  · intro inOrder
    rw [List.length_append, List.length_singleton] at inOrder ⊢
    rw [List.range_succ] at inOrder
    obtain ⟨front, last⟩ := List.append_inj' inOrder rfl
    obtain rfl := List.singleton_inj.mp last
    have progress := advanced.progress front
    have entered : (walker.pushTarget (.output outputs.length)).Progress roots
        ([] ++ [outputs.length]) :=
      ⟨progress.entered_iff, progress.direct, fun index member =>
        (progress.recorded index member).imp_left (List.mem_cons_of_mem _)⟩
    have row : roots.Row [] outputs.length walker.trail [root] := by
      rw [advanced.trail]
      exact .single (Roots.lies_output driven)
    have whole := walks.progress bare row advanced.situated entered
    refine ⟨whole.entered_iff, whole.direct, fun index member => Or.inr ?_⟩
    rcases whole.recorded index member with above | recorded
    · simp [hierarchy] at above
    · exact recorded
  · intro other member root drives input turns path course combinational
    rcases List.mem_append.mp member with earlier | now
    · apply walks.frame.mem_paths
      exact advanced.combinational other earlier root drives input turns path course combinational
    · rw [List.mem_singleton.mp now, driven, Option.some.injEq] at drives
      have met := walks.mem_paths (List.mem_singleton_self _) (drives ▸ course) combinational
      rwa [pushTarget, advanced.trail] at met

end Advanced

variable {walker : Walker}

/-- All paths that the walks of the outputs meet are direct, and they meet all of these. -/
theorem mem_paths_iff_direct (bare : roots.Bare)
    (walked : walkAll roots (List.range roots.outputs.length) = .ok walker) (path : List Token) :
    path ∈ walker.paths ↔ roots.Direct path := by
  have advanced : Advanced roots (List.range roots.outputs.length) walker :=
    walkAll_induction (.start roots) (fun advanced => advanced.walkOutput bare) walked
  have progress := advanced.progress (by simp)
  rw [List.length_range] at progress
  constructor
  · exact progress.direct path
  · rintro ⟨⟨input, turns, leads⟩, prompt⟩
    rcases Path.combinational_or_split path with combinational | ⟨front, index, back, rfl, hides⟩
    · obtain ⟨driven, course⟩ := leads
      have bound := List.mem_range.mpr (List.getElem?_eq_some_iff.mp driven).1
      exact advanced.combinational _ bound _ driven input _ path course combinational
    · have more : back ≠ [] := by
        rintro rfl
        simpa using leads.getLast?
      -- The last flip-flop on the path was entered along the front of the path, and the rest was
      -- met from there.
      obtain ⟨root, later, driven, course⟩ := leads.beyond more
      obtain ⟨others, foremost⟩ := prompt front index back rfl
      have entered : index ∈ walker.entered := (progress.entered_iff index).mpr
        ⟨others, _, foremost.leads, foremost.simple, foremost.leads.lt_outputs⟩
      rcases progress.recorded index entered with above | ⟨_, _, _, other, drives, met⟩
      · simp [advanced.surveyed.hierarchy] at above
      · rw [driven, Option.some.injEq] at drives
        subst drives
        have whole := met input later back course hides
        rwa [← foremost.unique other, List.append_assoc, List.singleton_append] at whole

end Walker

end GateLevel
