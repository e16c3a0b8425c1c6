import GateLevel.Proofs.Graph.Paths
import Mathlib.Data.List.Lex

/-! Courses through a graph, each told by the turns it takes. Walks take courses in the order of
their turns, so the first simple course to a flip-flop is the one on which it is entered. -/

namespace GateLevel

/-- Of the lists below one that continues a front, those not below another such list continue the
front as well. -/
theorem lt_append_iff {lower upper : List Nat} (less : lower < upper) (front others : List Nat) :
    others < front ++ upper ↔ others < front ++ lower ∨
      ∃ beyond, others = front ++ beyond ∧ ¬ beyond < lower ∧ beyond < upper := by
  induction front generalizing others with
  | nil =>
      simp only [List.nil_append, exists_eq_left']
      constructor
      · exact fun below => (em (others < lower)).imp id fun above => ⟨above, below⟩
      · rintro (below | ⟨_, below⟩)
        · exact lt_trans below less
        · exact below
  | cons turn front ih =>
      cases others with
      | nil => simp
      | cons other others =>
          simp only [List.cons_append, List.cons_lt_cons_iff, List.cons.injEq, ih]
          grind

theorem lt_append_zero_iff (turns others : List Nat) :
    others < turns ++ [0] ↔ others < turns ∨ others = turns := by
  rw [lt_append_iff (List.nil_lt_cons 0 []), List.append_nil]
  apply or_congr_right
  constructor
  · rintro ⟨beyond, rfl, _, below⟩
    cases beyond with
    | nil => exact List.append_nil turns
    | cons turn beyond => simp [List.cons_lt_cons_iff] at below
  · rintro rfl
    exact ⟨[], by simp⟩

/-- Before the next turn come the lists that take this turn and a later one after it. -/
theorem lt_append_succ_iff (turns others : List Nat) (turn next : Nat) :
    others < turns ++ [turn + 1] ↔ others < turns ++ [turn, next] ∨
      ∃ later beyond, next ≤ later ∧ others = turns ++ turn :: later :: beyond := by
  have less : [turn, next] < [turn + 1] := by simp [List.cons_lt_cons_iff]
  rw [lt_append_iff less]
  apply or_congr_right
  constructor
  · rintro ⟨beyond, rfl, above, below⟩
    rcases beyond with _ | ⟨first, beyond⟩
    · exact absurd (List.nil_lt_cons turn [next]) above
    · rw [List.cons_lt_cons_iff] at above
      obtain rfl : first = turn := by
        simp only [List.cons_lt_cons_iff, List.not_lt_nil, and_false, or_false] at below
        omega
      rcases beyond with _ | ⟨later, beyond⟩
      · exact absurd (Or.inr ⟨rfl, List.nil_lt_cons next []⟩) above
      · refine ⟨later, beyond, Nat.not_lt.mp fun less => above (Or.inr ⟨rfl, ?_⟩), rfl⟩
        exact List.cons_lt_cons_iff.mpr (Or.inl less)
  · rintro ⟨later, beyond, atLeast, rfl⟩
    refine ⟨_, rfl, ?_, ?_⟩
    · simp only [List.cons_lt_cons_iff, List.not_lt_nil, and_false, or_false]
      omega
    · exact List.cons_lt_cons_iff.mpr (Or.inl (Nat.lt_succ_self turn))

namespace Path

def Simple (path : List Token) : Prop :=
  ∀ index, path.count (.signal (.flipflop index)) ≤ 1

def Combinational (path : List Token) : Prop :=
  ∀ index, Token.signal (.flipflop index) ∉ path

theorem combinational_append_iff {front back : List Token} :
    Combinational (front ++ back) ↔ Combinational front ∧ Combinational back := by
  simp only [Combinational, List.mem_append, not_or, forall_and]

theorem Simple.concat {path : List Token} {token : Token} (simple : Simple path)
    (fresh : ∀ index, token = .signal (.flipflop index) → token ∉ path) :
    Simple (path ++ [token]) := by
  intro index
  rw [List.count_append, List.count_singleton]
  by_cases same : token = .signal (.flipflop index)
  · have none := List.count_eq_zero.mpr (fresh index same)
    rw [same] at none
    simp [same, none]
  · simpa [same] using simple index

theorem Simple.not_mem_both {front back : List Token} (simple : Simple (front ++ back))
    {index : Nat} (ahead : Token.signal (.flipflop index) ∈ front) :
    Token.signal (.flipflop index) ∉ back := by
  intro behind
  have once := simple index
  have first := List.count_pos_iff.mpr ahead
  have second := List.count_pos_iff.mpr behind
  rw [List.count_append] at once
  omega

theorem combinational_or_split (path : List Token) : Combinational path ∨ ∃ front index back,
    path = front ++ .signal (.flipflop index) :: back ∧ Combinational back := by
  induction path with
  | nil => exact Or.inl fun index => List.not_mem_nil
  | cons token rest ih =>
      rcases ih with combinational | ⟨front, index, back, rfl, combinational⟩
      · by_cases flipflop : ∃ index, token = .signal (.flipflop index)
        · obtain ⟨index, rfl⟩ := flipflop
          exact Or.inr ⟨[], index, rest, rfl, combinational⟩
        · refine Or.inl fun index member => ?_
          rcases List.mem_cons.mp member with same | later
          · exact flipflop ⟨index, same.symm⟩
          · exact combinational index later
      · exact Or.inr ⟨token :: front, index, back, rfl, combinational⟩

end Path

namespace Roots

/-- A way down from the node to one that bears the signal: the turns taken on it and the tokens
that stand on it. At a gate a turn leads to one of the children, and at a flip-flop the only one
leads to the root that drives it. -/
inductive Course (roots : Roots) (signal : Signal) : NodeId → List Nat → List Token → Prop
  | arrive {id children} : roots.arena.node? id = some ⟨.signal signal, children⟩ →
      Course roots signal id [] [.signal signal]
  | child {id gate children turn child turns path} :
      roots.arena.node? id = some ⟨.gate gate, children⟩ → children[turn]? = some child →
      Course roots signal child turns path →
      Course roots signal id (turn :: turns) (.gate gate :: path)
  | through {id index children root turns path} :
      roots.arena.node? id = some ⟨.signal (.flipflop index), children⟩ →
      roots.flipflops[index]? = some root → Course roots signal root turns path →
      Course roots signal id (0 :: turns) (.signal (.flipflop index) :: path)

inductive Leads (roots : Roots) (signal : Signal) : List Nat → List Token → Prop
  | output {output root turns path} : roots.outputs[output]? = some root →
      Course roots signal root turns path → Leads roots signal (output :: turns) path

def Earlier (roots : Roots) (turns : List Nat) (index : Nat) : Prop :=
  ∃ others path, roots.Leads (.flipflop index) others path ∧ Path.Simple path ∧ others < turns

/-- Of all paths that lead to the flip-flop and on which no flip-flop stands twice, the one with the
least turns. -/
structure Foremost (roots : Roots) (index : Nat) (turns : List Nat) (path : List Token) : Prop where
  leads : roots.Leads (.flipflop index) turns path
  simple : Path.Simple path
  least : ¬ roots.Earlier turns index

/-- The path comes to every flip-flop on it along the foremost path to that flip-flop. -/
def Prompt (roots : Roots) (path : List Token) : Prop :=
  ∀ front index back, path = front ++ .signal (.flipflop index) :: back →
    ∃ turns, roots.Foremost index turns (front ++ [.signal (.flipflop index)])

/-- The path leads to an input, from flip-flop to flip-flop as early as that can be. -/
def Direct (roots : Roots) (path : List Token) : Prop :=
  (∃ input turns, roots.Leads (.input input) turns path) ∧ roots.Prompt path

def Lies (roots : Roots) (turns : List Nat) (trail : List Token) (id : NodeId) : Prop :=
  ∀ signal beyond path, roots.Leads signal (turns ++ beyond) path ↔
    ∃ rest, path = trail.reverse ++ rest ∧ roots.Course signal id beyond rest

def Row (roots : Roots) (turns : List Nat) (first : Nat) (trail : List Token)
    (ids : List NodeId) : Prop :=
  ∀ turn id, ids[turn]? = some id → roots.Lies (turns ++ [first + turn]) trail id

def Bare (roots : Roots) : Prop :=
  ∀ id signal children, roots.arena.node? id = some ⟨.signal signal, children⟩ → children = []

variable {roots : Roots} {signal : Signal} {id : NodeId} {turn : Nat} {turns : List Nat}
  {path : List Token} {children : List NodeId}

theorem course_nil_iff :
    roots.Course signal id [] path ↔ path = [.signal signal] ∧
      ∃ children, roots.arena.node? id = some ⟨.signal signal, children⟩ := by
  constructor
  · rintro ⟨found⟩
    exact ⟨rfl, _, found⟩
  · rintro ⟨rfl, _, found⟩
    exact .arrive found

theorem course_gate_iff {gate : Gate}
    (found : roots.arena.node? id = some ⟨.gate gate, children⟩) :
    roots.Course signal id (turn :: turns) path ↔ ∃ child rest, children[turn]? = some child ∧
      path = .gate gate :: rest ∧ roots.Course signal child turns rest := by
  constructor
  · intro course
    cases course with
    | child same below course =>
        simp only [found, Option.some.injEq, Node.mk.injEq, Token.gate.injEq] at same
        obtain ⟨rfl, rfl⟩ := same
        exact ⟨_, _, below, rfl, course⟩
    | through same => simp [found] at same
  · rintro ⟨child, rest, below, rfl, course⟩
    exact .child found below course

theorem course_signal_iff {source : Signal}
    (found : roots.arena.node? id = some ⟨.signal source, children⟩) :
    roots.Course signal id (turn :: turns) path ↔ turn = 0 ∧ ∃ index root rest,
      source = .flipflop index ∧ roots.flipflops[index]? = some root ∧
      path = .signal source :: rest ∧ roots.Course signal root turns rest := by
  constructor
  · intro course
    cases course with
    | child same => simp [found] at same
    | through same driven course =>
        simp only [found, Option.some.injEq, Node.mk.injEq, Token.signal.injEq] at same
        obtain ⟨rfl, rfl⟩ := same
        exact ⟨rfl, _, _, _, rfl, driven, rfl, course⟩
  · rintro ⟨rfl, index, root, rest, rfl, driven, rfl, course⟩
    exact .through found driven course

theorem Course.unique {other : List Token} (first : roots.Course signal id turns path)
    (second : roots.Course signal id turns other) : path = other := by
  induction first generalizing other with
  | arrive => exact (course_nil_iff.mp second).1.symm
  | child found below _ ih =>
      obtain ⟨child, rest, same, rfl, course⟩ := (course_gate_iff found).mp second
      obtain rfl := Option.some.inj (below.symm.trans same)
      rw [ih course]
  | through found driven _ ih =>
      obtain ⟨_, index, root, rest, same, drives, rfl, course⟩ :=
        (course_signal_iff found).mp second
      obtain rfl := Signal.flipflop.inj same
      obtain rfl := Option.some.inj (driven.symm.trans drives)
      rw [ih course]

theorem Course.getLast? (course : roots.Course signal id turns path) :
    path.getLast? = some (.signal signal) := by
  induction course with
  | arrive => rfl
  | child _ _ _ ih => rw [List.getLast?_cons, ih, Option.getD_some]
  | through _ _ _ ih => rw [List.getLast?_cons, ih, Option.getD_some]

theorem Course.reaches (course : roots.Course signal id turns path) :
    ∃ last children, Relation.ReflTransGen roots.Step id last ∧
      roots.arena.node? last = some ⟨.signal signal, children⟩ := by
  induction course with
  | arrive found => exact ⟨_, _, .refl, found⟩
  | child found below _ ih =>
      obtain ⟨last, children, steps, bears⟩ := ih
      exact ⟨last, children, .head (.child found (List.mem_of_getElem? below)) steps, bears⟩
  | through found driven _ ih =>
      obtain ⟨last, children, steps, bears⟩ := ih
      exact ⟨last, children, .head (.through found driven) steps, bears⟩

/-- Behind a flip-flop on its way a course is one from the root that drives the flip-flop. -/
theorem Course.beyond {index : Nat} {front back : List Token} (more : back ≠ [])
    (course : roots.Course signal id turns path)
    (split : path = front ++ .signal (.flipflop index) :: back) :
    ∃ root later, roots.flipflops[index]? = some root ∧ roots.Course signal root later back := by
  induction course generalizing front with
  | arrive =>
      rcases front with _ | ⟨token, front⟩
      · simp only [List.nil_append, List.cons.injEq] at split
        exact absurd split.2.symm more
      · simp at split
  | child _ _ _ ih =>
      rcases front with _ | ⟨token, front⟩
      · simp at split
      · exact ih (List.cons.inj split).2
  | @through _ _ _ root turns _ _ driven course ih =>
      rcases front with _ | ⟨token, front⟩
      · simp only [List.nil_append, List.cons.injEq, Token.signal.injEq,
          Signal.flipflop.injEq] at split
        obtain ⟨rfl, rfl⟩ := split
        exact ⟨root, turns, driven, course⟩
      · exact ih (List.cons.inj split).2

namespace Leads

theorem unique {other : List Token} (first : roots.Leads signal turns path)
    (second : roots.Leads signal turns other) : path = other := by
  obtain ⟨driven, course⟩ := first
  obtain ⟨same, otherCourse⟩ := second
  obtain rfl := Option.some.inj (driven.symm.trans same)
  exact course.unique otherCourse

theorem getLast? (leads : roots.Leads signal turns path) :
    path.getLast? = some (.signal signal) := by
  obtain ⟨_, course⟩ := leads
  exact course.getLast?

theorem lt_outputs (leads : roots.Leads signal turns path) : turns < [roots.outputs.length] := by
  obtain ⟨driven, _⟩ := leads
  exact List.cons_lt_cons_iff.mpr (Or.inl (List.getElem?_eq_some_iff.mp driven).1)

theorem reaches (leads : roots.Leads signal turns path) :
    ∃ output, roots.Reaches (.output output) signal := by
  obtain ⟨driven, course⟩ := leads
  obtain ⟨last, children, steps, bears⟩ := course.reaches
  exact ⟨_, _, last, children, driven, steps, bears⟩

theorem beyond {index : Nat} {front back : List Token} (more : back ≠ [])
    (leads : roots.Leads signal turns (front ++ .signal (.flipflop index) :: back)) :
    ∃ root later, roots.flipflops[index]? = some root ∧ roots.Course signal root later back := by
  obtain ⟨_, course⟩ := leads
  exact course.beyond more rfl

end Leads

theorem earlier_append_zero_iff (index : Nat) : roots.Earlier (turns ++ [0]) index ↔
    roots.Earlier turns index ∨
      ∃ path, roots.Leads (.flipflop index) turns path ∧ Path.Simple path := by
  simp only [Earlier, lt_append_zero_iff]
  constructor
  · rintro ⟨others, path, leads, simple, less | rfl⟩
    · exact Or.inl ⟨others, path, leads, simple, less⟩
    · exact Or.inr ⟨path, leads, simple⟩
  · rintro (⟨others, path, leads, simple, less⟩ | ⟨path, leads, simple⟩)
    · exact ⟨others, path, leads, simple, Or.inl less⟩
    · exact ⟨turns, path, leads, simple, Or.inr rfl⟩

theorem earlier_append_succ_iff (next index : Nat) : roots.Earlier (turns ++ [turn + 1]) index ↔
    roots.Earlier (turns ++ [turn, next]) index ∨ ∃ later beyond path, next ≤ later ∧
      roots.Leads (.flipflop index) (turns ++ turn :: later :: beyond) path ∧ Path.Simple path := by
  simp only [Earlier, lt_append_succ_iff turns _ turn next]
  constructor
  · rintro ⟨others, path, leads, simple, less | ⟨later, beyond, atLeast, rfl⟩⟩
    · exact Or.inl ⟨others, path, leads, simple, less⟩
    · exact Or.inr ⟨later, beyond, path, atLeast, leads, simple⟩
  · rintro (⟨others, path, leads, simple, less⟩ | ⟨later, beyond, path, atLeast, leads, simple⟩)
    · exact ⟨others, path, leads, simple, Or.inl less⟩
    · exact ⟨_, path, leads, simple, Or.inr ⟨later, beyond, atLeast, rfl⟩⟩

theorem Foremost.unique {index : Nat} {others : List Nat} {other : List Token}
    (first : roots.Foremost index turns path) (second : roots.Foremost index others other) :
    path = other := by
  rcases lt_trichotomy turns others with less | rfl | greater
  · exact absurd ⟨turns, path, first.leads, first.simple, less⟩ second.least
  · exact first.leads.unique second.leads
  · exact absurd ⟨others, other, second.leads, second.simple, greater⟩ first.least

namespace Prompt

theorem nil (roots : Roots) : roots.Prompt [] := by
  intro front index back split
  simp at split

theorem concat (prompt : roots.Prompt path) {token : Token}
    (last : ∀ index, token = .signal (.flipflop index) →
      ∃ turns, roots.Foremost index turns (path ++ [token])) : roots.Prompt (path ++ [token]) := by
  intro front index back split
  rcases List.eq_nil_or_concat back with rfl | ⟨back, final, rfl⟩
  · obtain ⟨rfl, same⟩ := List.append_inj' split rfl
    obtain rfl := List.singleton_inj.mp same
    exact last index rfl
  · rw [List.concat_eq_append, ← List.cons_append, ← List.append_assoc] at split
    exact prompt front index back (List.append_inj' split rfl).1

theorem simple (prompt : roots.Prompt path) : Path.Simple path := by
  induction path using List.reverseRecOn with
  | nil => simp [Path.Simple]
  | append_singleton path token ih =>
      by_cases flipflop : ∃ index, token = .signal (.flipflop index)
      · obtain ⟨index, rfl⟩ := flipflop
        obtain ⟨_, foremost⟩ := prompt path index [] rfl
        exact foremost.simple
      · refine (ih ?_).concat fun index same => absurd ⟨index, same⟩ flipflop
        rintro front index back rfl
        exact prompt front index (back ++ [token]) (by simp)

end Prompt

theorem prompt_of_combinational (combinational : Path.Combinational path) : roots.Prompt path := by
  rintro front index back rfl
  exact absurd (by simp) (combinational index)

theorem lies_output {output : Nat} {root : NodeId} (driven : roots.outputs[output]? = some root) :
    roots.Lies [output] [] root := by
  intro signal beyond path
  constructor
  · rintro ⟨same, course⟩
    obtain rfl := Option.some.inj (driven.symm.trans same)
    exact ⟨path, rfl, course⟩
  · rintro ⟨_, rfl, course⟩
    exact .output driven course

namespace Lies

variable {trail : List Token}

theorem leads_iff (lies : roots.Lies turns trail id) :
    roots.Leads signal turns path ↔ path = trail.reverse ++ [.signal signal] ∧
      ∃ children, roots.arena.node? id = some ⟨.signal signal, children⟩ := by
  have here := lies signal [] path
  rw [List.append_nil] at here
  rw [here]
  simp only [course_nil_iff]
  grind

theorem child (lies : roots.Lies turns trail id) {gate : Gate}
    (found : roots.arena.node? id = some ⟨.gate gate, children⟩) {child : NodeId}
    (below : children[turn]? = some child) :
    roots.Lies (turns ++ [turn]) (.gate gate :: trail) child := by
  intro signal beyond path
  rw [List.append_assoc, List.singleton_append, lies]
  simp only [course_gate_iff found, List.reverse_cons, List.append_assoc, List.singleton_append]
  constructor
  · rintro ⟨_, rfl, _, rest, same, rfl, course⟩
    obtain rfl := Option.some.inj (below.symm.trans same)
    exact ⟨rest, rfl, course⟩
  · rintro ⟨rest, rfl, course⟩
    exact ⟨_, rfl, child, rest, below, rfl, course⟩

theorem through (lies : roots.Lies turns trail id) {index : Nat}
    (found : roots.arena.node? id = some ⟨.signal (.flipflop index), children⟩) {root : NodeId}
    (driven : roots.flipflops[index]? = some root) :
    roots.Lies (turns ++ [0]) (.signal (.flipflop index) :: trail) root := by
  intro signal beyond path
  rw [List.append_assoc, List.singleton_append, lies]
  simp only [course_signal_iff found, List.reverse_cons, List.append_assoc, List.singleton_append]
  constructor
  · rintro ⟨_, rfl, _, other, _, rest, same, drives, rfl, course⟩
    obtain rfl := Signal.flipflop.inj same
    obtain rfl := Option.some.inj (driven.symm.trans drives)
    exact ⟨rest, rfl, course⟩
  · rintro ⟨rest, rfl, course⟩
    exact ⟨_, rfl, trivial, index, root, rest, rfl, driven, rfl, course⟩

theorem row (lies : roots.Lies turns trail id) {gate : Gate}
    (found : roots.arena.node? id = some ⟨.gate gate, children⟩) :
    roots.Row turns 0 (.gate gate :: trail) children := by
  intro turn child below
  rw [Nat.zero_add]
  exact lies.child found below

end Lies

namespace Row

variable {first : Nat} {trail : List Token} {rest : List NodeId}

theorem head (row : roots.Row turns first trail (id :: rest)) :
    roots.Lies (turns ++ [first]) trail id :=
  row 0 id rfl

theorem single (lies : roots.Lies (turns ++ [first]) trail id) :
    roots.Row turns first trail [id] := by
  intro turn other there
  cases turn with
  | zero =>
      obtain rfl := Option.some.inj there
      exact lies
  | succ turn => simp at there

theorem tail (row : roots.Row turns first trail (id :: rest)) :
    roots.Row turns (first + 1) trail rest := by
  intro turn other there
  rw [Nat.add_assoc, Nat.add_comm 1]
  exact row (turn + 1) other there

end Row

end Roots

end GateLevel
