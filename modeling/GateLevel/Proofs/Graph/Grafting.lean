import GateLevel.Proofs.Graph.Unfolding
import GateLevel.Proofs.Postfix

/-! The value of an expression is that of the one formula that it writes down, and the node that a
graph builder makes of it unfolds to this formula, with what the supplied nodes unfold to in place
of the signals. -/

namespace GateLevel

variable {σ V : Type}

def Interpretation.formula : Interpretation Unit Formula where
  invert operand _ := (.not operand, ())
  combine gate last first _ := (.binary gate first last, ())

def valuation (leaf : Signal → Level) : Correspondence .formula .level where
  World _ _ := True
  Related _ _ formula level := formula.level leaf = level
  invert := by
    rintro _ _ operand _ _ rfl
    exact ⟨trivial, fun _ _ other => other, rfl⟩
  combine := by
    rintro gate _ _ last _ first _ _ rfl rfl
    exact ⟨trivial, fun _ _ other => other, rfl⟩

def drawing : Correspondence .formula .graph where
  World _ _ := True
  Related _ arena formula id := arena.Unfolds id formula
  invert := by
    intro _ arena operand id _ unfolds
    have grown := arena.allocate_extends ⟨.gate .not, [id]⟩
    exact ⟨trivial, fun _ _ other => other.extend grown,
      .not (arena.node?_allocate _) (unfolds.extend grown)⟩
  combine := by
    intro gate _ arena last lastId first firstId _ lastUnfolds firstUnfolds
    have grown := arena.allocate_extends ⟨.gate (.binary gate), [lastId, firstId]⟩
    exact ⟨trivial, fun _ _ other => other.extend grown,
      .binary (arena.node?_allocate _) (lastUnfolds.extend grown) (firstUnfolds.extend grown)⟩

namespace Interpretation

variable {meaning : Interpretation σ V} (reading : Correspondence .formula meaning)
  {scope : Scope V} (trees : Signal → Formula)

/-- The tokens of a formula push the value of the formula, whatever stands for its signals. -/
theorem execute_tokens (formula : Formula) (rest : List Token) (stack : List V) {context : σ}
    (world : reading.World () context)
    (supplied : ∀ signal, Token.signal signal ∈ formula.tokens →
      ∃ value, scope.Holds signal value ∧ reading.Related () context (trees signal) value) :
    ∃ value later, meaning.execute scope (formula.tokens ++ rest) stack context =
        meaning.execute scope rest (value :: stack) later ∧
      reading.Evolves () context () later ∧
      reading.Related () later (formula.graft trees) value := by
  induction formula generalizing rest stack context with
  | signal source =>
      obtain ⟨value, holds, related⟩ := supplied source (by simp [Formula.tokens])
      have found := (Scope.read_eq_ok_iff source value).mpr holds
      exact ⟨value, context, by simp [Formula.tokens, execute, found], .refl world, related⟩
  | not operand ih =>
      obtain ⟨value, later, executed, evolves, related⟩ :=
        ih (.gate .not :: rest) stack world fun signal mentioned =>
          supplied signal (by simp [Formula.tokens, mentioned])
      obtain ⟨nextWorld, keeps, inverted⟩ := reading.invert evolves.world related
      refine ⟨_, _, ?_, evolves.trans ⟨nextWorld, keeps⟩, inverted⟩
      simp only [Formula.tokens, List.append_assoc, List.singleton_append, executed]
      rfl
  | binary gate first last firstIh lastIh =>
      obtain ⟨firstValue, middle, firstExecuted, firstEvolves, firstRelated⟩ :=
        firstIh (last.tokens ++ .gate (.binary gate) :: rest) stack world fun signal mentioned =>
          supplied signal (by simp [Formula.tokens, mentioned])
      obtain ⟨lastValue, later, lastExecuted, lastEvolves, lastRelated⟩ :=
        lastIh (.gate (.binary gate) :: rest) (firstValue :: stack) firstEvolves.world
          fun signal mentioned => by
            obtain ⟨value, holds, related⟩ := supplied signal (by simp [Formula.tokens, mentioned])
            exact ⟨value, holds, firstEvolves.keeps _ _ related⟩
      obtain ⟨nextWorld, keeps, combined⟩ := reading.combine gate lastEvolves.world lastRelated
        (lastEvolves.keeps _ _ firstRelated)
      refine ⟨_, _, ?_, (firstEvolves.trans lastEvolves).trans ⟨nextWorld, keeps⟩, combined⟩
      simp only [Formula.tokens, List.append_assoc, List.singleton_append, firstExecuted,
        lastExecuted]
      rfl

theorem evaluate_tokens (formula : Formula) {context : σ} (world : reading.World () context)
    (supplied : ∀ signal, Token.signal signal ∈ formula.tokens →
      ∃ value, scope.Holds signal value ∧ reading.Related () context (trees signal) value) :
    ∃ value later, meaning.evaluate scope formula.tokens context = (.ok value, later) ∧
      reading.Related () later (formula.graft trees) value := by
  obtain ⟨value, later, executed, _, related⟩ :=
    execute_tokens reading trees formula [] [] world supplied
  rw [List.append_nil] at executed
  exact ⟨value, later, by simp only [evaluate, executed, execute, single], related⟩

theorem evaluate_level_tokens {scope : Scope Level} {formula : Formula} {leaf : Signal → Level}
    (held : ∀ signal, Token.signal signal ∈ formula.tokens → scope.Holds signal (leaf signal)) :
    (level.evaluate scope formula.tokens ()).1 = .ok (formula.level leaf) := by
  obtain ⟨value, _, evaluated, related⟩ :=
    evaluate_tokens (valuation leaf) .signal formula trivial fun signal mentioned =>
      ⟨leaf signal, held signal mentioned, rfl⟩
  rw [evaluated, ← related, formula.graft_signal]

theorem evaluate_level_eq_ok_iff (scope : Scope Level) (expression : List Token) (value : Level) :
    (level.evaluate scope expression ()).1 = .ok value ↔
      ∃ (formula : Formula) (leaf : Signal → Level), formula.tokens = expression ∧
        (∀ signal, Token.signal signal ∈ expression → scope.Holds signal (leaf signal)) ∧
        formula.level leaf = value := by
  constructor
  · intro evaluated
    obtain ⟨⟨formula, rfl⟩, reads⟩ :=
      (level.exists_evaluate_iff expression ()).mp ⟨value, evaluated⟩
    let leaf : Signal → Level := fun signal => (scope.read signal).toOption.getD .unknown
    have held : ∀ signal, Token.signal signal ∈ formula.tokens →
        scope.Holds signal (leaf signal) := by
      intro signal mentioned
      obtain ⟨level, holds⟩ := reads signal mentioned
      have found : leaf signal = level := by
        simp only [leaf, (Scope.read_eq_ok_iff signal level).mpr holds]
        rfl
      rw [found]
      exact holds
    exact ⟨formula, leaf, rfl, held,
      Except.ok.inj ((evaluate_level_tokens held).symm.trans evaluated)⟩
  · rintro ⟨formula, leaf, rfl, held, rfl⟩
    exact evaluate_level_tokens held

end Interpretation

/-- Where nodes of an arena are supplied, every signal stands for the formula that its node unfolds
to. -/
theorem Arena.Proper.exists_trees {arena : Arena} {allowed : Signal → Prop}
    (proper : arena.Proper allowed) {nodes : Scope NodeId}
    (present : ∀ signal id, nodes.Holds signal id → id < arena.size) :
    ∃ trees : Signal → Formula, ∀ signal id, nodes.Holds signal id →
      arena.Unfolds id (trees signal) := by
  have each : ∀ signal, ∃ tree, ∀ id, nodes.Holds signal id → arena.Unfolds id tree := by
    intro signal
    by_cases held : ∃ id, nodes.Holds signal id
    · obtain ⟨id, holds⟩ := held
      obtain ⟨tree, unfolds⟩ := proper.exists_unfolds (present signal id holds)
      refine ⟨tree, fun other same => ?_⟩
      obtain rfl : id = other := holds.unique same
      exact unfolds
    · exact ⟨.signal signal, fun id holds => absurd ⟨id, holds⟩ held⟩
  exact Classical.axiomOfChoice each

namespace Interpretation

/-- An expression is written down by one formula at most. Over levels it has a value exactly if
there is one and all its signals can be read, namely the level of the formula. Over nodes of an
arena it has one under the same condition, and the new node unfolds to the formula with what the
supplied nodes unfold to in place of the signals. Otherwise it fails, whatever the gates do, as the
first offending token or the values left over make it. -/
theorem evaluate_postfix (expression : List Token) :
    (∀ formula other : Formula, formula.tokens = expression → other.tokens = expression →
        formula = other) ∧
      (∀ (scope : Scope Level) (value : Level),
        (level.evaluate scope expression ()).1 = .ok value ↔
          ∃ (formula : Formula) (leaf : Signal → Level), formula.tokens = expression ∧
            (∀ signal, Token.signal signal ∈ expression → scope.Holds signal (leaf signal)) ∧
            formula.level leaf = value) ∧
      (∀ (arena : Arena) (nodes : Scope NodeId), (arena.Proper fun _ => True) →
        (∀ signal id, nodes.Holds signal id → id < arena.size) →
          ∃ trees : Signal → Formula,
            (∀ signal id, nodes.Holds signal id → arena.Unfolds id (trees signal)) ∧
              ((∃ id, (graph.evaluate nodes expression arena).1 = .ok id) ↔
                Polish expression ∧ nodes.Reads expression) ∧
              ∀ (id : NodeId) (formula : Formula),
                (graph.evaluate nodes expression arena).1 = .ok id → formula.tokens = expression →
                  (graph.evaluate nodes expression arena).2.Unfolds id (formula.graft trees)) ∧
      ∀ (σ V : Type) (meaning : Interpretation σ V) (scope : Scope V) (context : σ)
        (cause : EvalError), (meaning.evaluate scope expression context).1 = .error cause ↔
          scope.Rejects expression cause := by
  refine ⟨?_, fun scope value => evaluate_level_eq_ok_iff scope expression value, ?_, ?_⟩
  · rintro formula other rfl same
    exact Formula.tokens_injective same.symm
  · intro arena nodes proper present
    obtain ⟨trees, unfold⟩ := proper.exists_trees present
    refine ⟨trees, unfold, graph.exists_evaluate_iff expression arena, ?_⟩
    rintro id formula evaluated rfl
    have reads := ((graph.exists_evaluate_iff formula.tokens arena).mp ⟨id, evaluated⟩).2
    have world : drawing.World () arena := trivial
    obtain ⟨root, after, drawn, unfolds⟩ :=
      evaluate_tokens drawing trees formula world fun signal mentioned =>
        (reads signal mentioned).imp fun node holds => ⟨holds, unfold signal node holds⟩
    rw [drawn] at evaluated ⊢
    obtain rfl := Except.ok.inj evaluated
    exact unfolds
  · intro σ V meaning scope context cause
    exact meaning.evaluate_eq_error_iff expression context cause

def shared : Arena := ⟨#[.leaf (.input 4), .leaf (.flipflop 1), ⟨.gate (.binary .xor), [1, 0]⟩]⟩

def sharedNodes : Scope NodeId := ⟨[0, 2], [1], [none, some 2]⟩

def sharedExpression : List Token :=
  [.signal (.output 1), .gate .not, .signal (.flipflop 0), .signal (.input 1),
    .gate (.binary .nor), .gate (.binary .and)]

theorem proper_shared : shared.Proper fun _ => True := by
  intro id node found
  rcases id with _ | _ | _ | id <;> simp [shared, Arena.node?] at found <;> subst found <;>
    simp [Node.Fits, Node.leaf, Gate.arity]

theorem present_shared (signal : Signal) (id : NodeId) (holds : sharedNodes.Holds signal id) :
    id < shared.size := by
  cases signal with
  | input index =>
      have member : id ∈ [0, 2] := List.mem_of_getElem? holds
      simp only [List.mem_cons, List.not_mem_nil, or_false] at member
      rcases member with rfl | rfl <;> decide
  | flipflop index =>
      obtain rfl : id = 1 := List.mem_singleton.mp (List.mem_of_getElem? holds)
      decide
  | output index =>
      have member : some id ∈ [none, some 2] := List.mem_of_getElem? holds
      obtain rfl : id = 2 := by simpa using member
      decide

theorem evaluate_postfix_shared :
    (level.evaluate ⟨[.high, .low], [.low], [none, some .unknown]⟩ sharedExpression ()).1 =
        .ok .unknown ∧
      (graph.evaluate sharedNodes sharedExpression shared).1 = .ok 5 ∧
      (∃ tree, shared.Unfolds 2 tree ∧
        (graph.evaluate sharedNodes sharedExpression shared).2.Unfolds 5
          (.binary .and (.not tree) (.binary .nor (.signal (.flipflop 1)) tree))) ∧
      (graph.evaluate sharedNodes (sharedExpression ++ [.signal (.output 0)]) shared).1 =
        .error (.unassignedOutput 0) := by
  obtain ⟨_, leveled, drawn, _⟩ := evaluate_postfix sharedExpression
  obtain ⟨_, _, _, rejected⟩ := evaluate_postfix (sharedExpression ++ [.signal (.output 0)])
  have mentions : ∀ signal, Token.signal signal ∈ sharedExpression →
      signal = .output 1 ∨ signal = .flipflop 0 ∨ signal = .input 1 := by
    simp [sharedExpression]
  have reads : sharedNodes.Reads sharedExpression := by
    intro signal mentioned
    rcases mentions signal mentioned with rfl | rfl | rfl
    · exact ⟨2, rfl⟩
    · exact ⟨1, rfl⟩
    · exact ⟨2, rfl⟩
  obtain ⟨trees, unfold, _, unfolds⟩ := drawn shared sharedNodes proper_shared present_shared
  have evaluated : (graph.evaluate sharedNodes sharedExpression shared).1 = .ok 5 := by
    decide +kernel
  have second : trees (.input 1) = trees (.output 1) :=
    (unfold (.input 1) 2 rfl).unique (unfold (.output 1) 2 rfl)
  have state : trees (.flipflop 0) = .signal (.flipflop 1) :=
    (unfold (.flipflop 0) 1 rfl).unique (.signal rfl)
  have grafted := unfolds 5 (.binary .and (.not (.signal (.output 1)))
    (.binary .nor (.signal (.flipflop 0)) (.signal (.input 1)))) evaluated rfl
  simp only [Formula.graft, second, state] at grafted
  refine ⟨?_, evaluated, ⟨_, unfold (.output 1) 2 rfl, grafted⟩, ?_⟩
  · rw [leveled]
    refine ⟨.binary .and (.not (.signal (.output 1)))
      (.binary .nor (.signal (.flipflop 0)) (.signal (.input 1))),
      fun signal => if signal = .output 1 then .unknown else .low, rfl, ?_, rfl⟩
    intro signal mentioned
    rcases mentions signal mentioned with rfl | rfl | rfl <;> rfl
  · rw [rejected]
    exact .token ⟨reads, rfl⟩ (.unassigned rfl)

end Interpretation

end GateLevel
