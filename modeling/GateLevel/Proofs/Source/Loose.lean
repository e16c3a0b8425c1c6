import GateLevel.Proofs.Failure
import GateLevel.Proofs.Source.Denotation

/-! Expressions that are no sentences. They are put in order like sentences. If the outcome is not
the reverse Polish order of a term, the module is turned down sooner or later. -/

namespace GateLevel.Source

namespace Yields

variable {atoms more : List Atom} {pending : List Pending} {written items : List Item}
  {waiting gates : List Gate}

theorem nil (pending : List Pending) : Yields [] pending [] [] := fun rest => by simp

theorem append (front : Yields atoms pending written waiting)
    (back : Yields more (waiting.map .gate ++ pending) items gates) :
    Yields (atoms ++ more) pending (written ++ items) (gates ++ waiting) := by
  intro rest
  rw [List.append_assoc, front, back]
  simp [Function.comp_def]

end Yields

inductive Form
  | cluster (inverters : Nat)
  | chain
  deriving DecidableEq, Repr

/-- Atoms with matching parentheses, and what becomes of them. A cluster is made of operands, chains
in parentheses and inverters in any order, and its inverters come last. A chain is a cluster, or a
chain with one more cluster behind a gate, and the gate comes behind both. -/
inductive Loose : Form → List Atom → List Item → Prop
  | empty : Loose (.cluster 0) [] []
  | operand {inverters front items} (name : List Char) : Loose (.cluster inverters) front items →
      Loose (.cluster inverters) (front ++ [.operand name]) (items ++ [.operand name])
  | not {inverters front items} : Loose (.cluster inverters) front items →
      Loose (.cluster (inverters + 1)) (front ++ [.gate .not]) items
  | group {inverters front items inner written} : Loose (.cluster inverters) front items →
      Loose .chain inner written →
      Loose (.cluster inverters) (front ++ .opening :: (inner ++ [.closing])) (items ++ written)
  | cluster {inverters atoms items} : Loose (.cluster inverters) atoms items →
      Loose .chain atoms (items ++ List.replicate inverters (.gate .not))
  | binary {inverters front back first last} (gate : BinaryGate) : Loose .chain front first →
      Loose (.cluster inverters) back last →
      Loose .chain (front ++ .gate (.binary gate) :: back)
        (first ++ (last ++ List.replicate inverters (.gate .not)) ++ [.gate (.binary gate)])

namespace Form

def Splits : Form → List Item → List Item → List Gate → Prop
  | cluster inverters, items, written, waiting =>
    written = items ∧ waiting = List.replicate inverters .not
  | chain, items, written, waiting => written ++ waiting.map .gate = items

end Form

namespace Loose

variable {form : Form} {atoms front more : List Atom} {items : List Item}

theorem exists_yields (loose : Loose form atoms items) :
    ∃ written waiting, form.Splits items written waiting ∧
      ∀ pending, (form = .chain → Pending.Settled pending) →
        Yields atoms pending written waiting := by
  -- Only a chain has to begin where no gate waits; a cluster makes no gate act.
  induction loose with
  | empty => exact ⟨[], [], ⟨rfl, rfl⟩, fun pending _ => .nil pending⟩
  | operand name _ ih =>
      obtain ⟨_, waiting, ⟨rfl, same⟩, yields⟩ := ih
      refine ⟨_, waiting, ⟨rfl, same⟩, fun pending _ => ?_⟩
      exact (yields pending (by simp)).append (.operand name _)
  | not _ ih =>
      obtain ⟨written, _, ⟨rfl, rfl⟩, yields⟩ := ih
      refine ⟨written, _, ⟨rfl, rfl⟩, fun pending _ => ?_⟩
      simpa [List.replicate_succ] using
        (yields pending (by simp)).append (Yields.nil (.gate .not :: _)).not
  | group _ _ frontIh innerIh =>
      obtain ⟨_, waiting, ⟨rfl, same⟩, front⟩ := frontIh
      obtain ⟨written, inverters, whole, inner⟩ := innerIh
      subst whole
      refine ⟨_, waiting, ⟨rfl, same⟩, fun pending _ => ?_⟩
      exact (front pending (by simp)).append (inner _ fun _ => ⟨rfl, rfl⟩).group
  | cluster _ ih =>
      obtain ⟨_, _, ⟨rfl, rfl⟩, yields⟩ := ih
      exact ⟨_, _, by simp [Form.Splits], fun pending _ => yields pending (by simp)⟩
  | binary gate _ _ frontIh backIh =>
      obtain ⟨written, waiting, whole, front⟩ := frontIh
      obtain ⟨_, _, ⟨rfl, rfl⟩, back⟩ := backIh
      subst whole
      refine ⟨_, _, ?_, fun pending settled =>
        .binary (settled rfl) (front pending settled) gate (back _ (by simp))⟩
      simp [Form.Splits]

theorem arrange_eq (loose : Loose .chain atoms items) : arrange atoms [] = some items := by
  obtain ⟨written, waiting, whole, yields⟩ := loose.exists_yields
  have same : written ++ waiting.map .gate = items := whole
  rw [(yields [] fun _ => ⟨rfl, rfl⟩).arrange_eq, same]

/-- What may stand behind every cluster may stand behind every chain. -/
theorem extend (step : ∀ {inverters front items}, Loose (.cluster inverters) front items →
      ∃ inverters items, Loose (.cluster inverters) (front ++ more) items)
    (loose : Loose .chain front items) : ∃ items, Loose .chain (front ++ more) items := by
  cases loose with
  | cluster cluster =>
      obtain ⟨_, _, longer⟩ := step cluster
      exact ⟨_, .cluster longer⟩
  | binary gate chain cluster =>
      obtain ⟨_, _, longer⟩ := step cluster
      exact ⟨_, by simpa using chain.binary gate longer⟩

end Loose

def enclose (outer : List (List Atom)) (current : List Atom) : List Atom :=
  outer.foldl (fun inner level => level ++ .opening :: inner) current

theorem exists_loose_of_closes {rest : List Atom} {outer : List (List Atom)} {current : List Atom}
    {items : List Item} (closes : Closes outer.length rest)
    (around : ∀ level ∈ outer, ∃ items, Loose .chain level items)
    (here : Loose .chain current items) :
    ∃ items, Loose .chain (enclose outer (current ++ rest)) items := by
  -- What has been read of every open level is a chain of its own, which goes on when the levels
  -- inside it are closed.
  induction rest generalizing outer current items with
  | nil =>
      obtain rfl := List.length_eq_zero_iff.mp (closes_nil_iff.mp closes)
      exact ⟨items, by simpa [enclose] using here⟩
  | cons atom rest ih =>
      rw [List.append_cons]
      cases atom with
      | operand name =>
          obtain ⟨_, longer⟩ := here.extend fun cluster => ⟨_, _, cluster.operand name⟩
          exact ih ((closes_cons_iff rfl).mp closes) around longer
      | opening =>
          have deeper : Closes (current :: outer).length rest :=
            (closes_cons_iff rfl).mp closes
          obtain ⟨written, whole⟩ := ih deeper (List.forall_mem_cons.mpr ⟨⟨items, here⟩, around⟩)
            (.cluster .empty)
          exact ⟨written, by simpa [enclose] using whole⟩
      | closing =>
          cases outer with
          | nil => exact absurd (closes.covered [.closing] ⟨rest, rfl⟩) (by simp)
          | cons level outer =>
              obtain ⟨⟨_, front⟩, around⟩ := List.forall_mem_cons.mp around
              obtain ⟨_, longer⟩ := front.extend fun cluster => ⟨_, _, cluster.group here⟩
              have shallower : Closes outer.length rest := (closes_cons_iff rfl).mp closes
              obtain ⟨written, whole⟩ := ih shallower around longer
              exact ⟨written, by simpa [enclose] using whole⟩
      | gate gate =>
          have level : Closes outer.length rest := (closes_cons_iff rfl).mp closes
          cases gate with
          | not =>
              obtain ⟨_, longer⟩ := here.extend fun cluster => ⟨_, _, cluster.not⟩
              exact ih level around longer
          | binary gate => exact ih level around (here.binary gate .empty)

theorem arrange_eq_some_iff {atoms : List Atom} {items : List Item} :
    arrange atoms [] = some items ↔ Loose .chain atoms items := by
  constructor
  · intro arranged
    have closes : Closes ([] : List (List Atom)).length atoms :=
      (arrange_isSome_iff atoms []).mp (by simp [arranged])
    obtain ⟨others, loose⟩ := exists_loose_of_closes closes (by simp) (.cluster .empty)
    have same := loose.arrange_eq
    simp only [enclose, List.foldl_nil, List.nil_append] at same loose
    obtain rfl := Option.some.inj (same.symm.trans arranged)
    exact loose
  · exact Loose.arrange_eq

theorem Phrase.loose {atoms : List Atom} {term : Term} (phrase : Phrase .chain atoms term) :
    Loose .chain atoms term.items :=
  arrange_eq_some_iff.mp phrase.arrange_eq

inductive Means (header : Header) : Term → Formula → Prop
  | operand {name signal} : Denotes header name signal →
      Means header (.operand name) (.signal signal)
  | not {inner operand} : Means header inner operand → Means header (.not inner) (.not operand)
  | binary {first last left right} (gate : BinaryGate) : Means header first left →
      Means header last right → Means header (.binary gate first last) (.binary gate left right)

theorem exists_of_forall₂_append {α β : Type} {related : α → β → Prop} {front back : List α}
    {list : List β} (pairs : List.Forall₂ related (front ++ back) list) :
    ∃ first last, list = first ++ last ∧ List.Forall₂ related front first ∧
      List.Forall₂ related back last := by
  refine ⟨list.take front.length, list.drop front.length, (List.take_append_drop ..).symm, ?_, ?_⟩
  · exact (List.forall₂_take_append _ _ _ pairs.flip).flip
  · exact (List.forall₂_drop_append _ _ _ pairs.flip).flip

section

variable {header : Header}

theorem eq_of_becomes_gate {kind : Gate} {tokens : List Token}
    (becomes : List.Forall₂ (Becomes header) [.gate kind] tokens) : tokens = [.gate kind] := by
  cases becomes with
  | cons one none =>
      cases one
      cases none
      rfl

theorem eq_of_becomes_token {kind : Gate} {items : List Item}
    (becomes : List.Forall₂ (Becomes header) items [.gate kind]) : items = [.gate kind] := by
  cases becomes with
  | cons one none =>
      cases one
      cases none
      rfl

theorem Term.exists_means {term : Term} {tokens : List Token}
    (becomes : List.Forall₂ (Becomes header) term.items tokens) :
    ∃ formula, formula.tokens = tokens ∧ Means header term formula := by
  induction term generalizing tokens with
  | operand name =>
      cases becomes with
      | cons one none =>
          cases none
          cases one with
          | operand denotes => exact ⟨.signal _, rfl, .operand denotes⟩
  | not inner ih =>
      obtain ⟨_, _, rfl, front, gate⟩ := exists_of_forall₂_append becomes
      obtain rfl := eq_of_becomes_gate gate
      obtain ⟨operand, rfl, means⟩ := ih front
      exact ⟨.not operand, rfl, .not means⟩
  | binary kind first last firstIh lastIh =>
      obtain ⟨_, _, rfl, operands, gate⟩ := exists_of_forall₂_append becomes
      obtain rfl := eq_of_becomes_gate gate
      obtain ⟨_, _, rfl, front, back⟩ := exists_of_forall₂_append operands
      obtain ⟨left, rfl, firstMeans⟩ := firstIh front
      obtain ⟨right, rfl, lastMeans⟩ := lastIh back
      exact ⟨.binary kind left right, rfl, .binary kind firstMeans lastMeans⟩

theorem exists_term_of_tokens {formula : Formula} {items : List Item}
    (becomes : List.Forall₂ (Becomes header) items formula.tokens) :
    ∃ term : Term, term.items = items := by
  induction formula generalizing items with
  | signal source =>
      cases becomes with
      | cons one none =>
          cases none
          cases one with
          | operand denotes => exact ⟨.operand _, rfl⟩
  | not operand ih =>
      obtain ⟨_, _, rfl, front, gate⟩ := exists_of_forall₂_append becomes.flip
      obtain rfl := eq_of_becomes_token gate.flip
      obtain ⟨inner, rfl⟩ := ih front.flip
      exact ⟨.not inner, rfl⟩
  | binary kind left right leftIh rightIh =>
      obtain ⟨_, _, rfl, operands, gate⟩ := exists_of_forall₂_append becomes.flip
      obtain rfl := eq_of_becomes_token gate.flip
      obtain ⟨_, _, rfl, front, back⟩ := exists_of_forall₂_append operands
      obtain ⟨first, rfl⟩ := leftIh front.flip
      obtain ⟨last, rfl⟩ := rightIh back.flip
      exact ⟨.binary kind first last, rfl⟩

end

/-- Reading or resolving the text fails, or every tick over inputs of the right width does, with too
little or too much on the stack. -/
def Rejected (text : String) : Prop :=
  (∃ error, readNetlist text = .error error) ∨
    ∃ netlist, readNetlist text = .ok netlist ∧
      ∀ simulator : Simulator, simulator.Runs netlist →
        ∀ inputs, inputs.length = netlist.inputs.length →
          (simulator.tick inputs).result = .error .stackUnderflow ∨
            ∃ height, 2 ≤ height ∧
              (simulator.tick inputs).result = .error (.stackNotSingleton height)

theorem readNetlist_eq_ok {text : String} {netlist : Netlist}
    (read : readNetlist text = .ok netlist) :
    ∃ declaration, readDeclaration text = .ok declaration ∧ declaration.resolve = .ok netlist := by
  obtain ⟨declaration, declared, rest⟩ := exists_of_bind_eq_ok read
  refine ⟨declaration, declared, ?_⟩
  cases resolved : declaration.resolve with
  | error cause =>
      rw [resolved] at rest
      cases rest
  | ok other =>
      rw [resolved] at rest
      cases rest
      rfl

theorem rejected_of_not_polish {text : String} (ill : ∀ declaration,
      readDeclaration text = .ok declaration →
      ∃ assignment ∈ declaration.assignments, ¬ Polish assignment.expression) :
    Rejected text := by
  rcases read : readNetlist text with error | netlist
  · exact Or.inl ⟨error, read⟩
  · refine Or.inr ⟨netlist, read, fun simulator runs inputs width => ?_⟩
    obtain ⟨declaration, declared, resolved⟩ := readNetlist_eq_ok read
    obtain ⟨assignment, member, wrong⟩ := ill declaration declared
    obtain ⟨_, perm, _⟩ := Declaration.resolve_eq_ok resolved
    have result : (simulator.tick inputs).result = netlist.verdict :=
      runs.tick_result .level (Declaration.orderly_of_resolve resolved) width
    rcases failed : netlist.verdict with error | ⟨⟩
    · rw [result, failed]
      rcases stack_error_of_verdictOfAll failed with rfl | ⟨height, least, rfl⟩
      · exact Or.inl rfl
      · exact Or.inr ⟨height, least, rfl⟩
    · have polish := (verdictOfAll_eq_ok_iff _).mp failed assignment (perm.mem_iff.mpr member)
      exact absurd polish wrong

/-- Whatever the words of an expression are, the module is rejected unless putting them in order
gives the reverse Polish order of a term. It is this term that is compiled then, over the operands
of the words in their order. From a sentence comes the term that it says. -/
theorem rejected_or_compiled (text : String) (position : Nat) (words : List (List Char))
    (written : (expressionsOf text)[position]? = some words) :
    ((∀ term : Term, ¬ Loose .chain (atomsOf words) term.items) → Rejected text) ∧
      (∀ term : Term, Loose .chain (atomsOf words) term.items →
        term.items.filterMap Item.name? = operandsOf words ∧
          ∀ declaration, readDeclaration text = .ok declaration →
            ∃ assignment formula, declaration.assignments[position]? = some assignment ∧
              Means declaration.toHeader term formula ∧
              assignment.expression = formula.tokens) ∧
      ∀ term, Phrase .chain (atomsOf words) term → Loose .chain (atomsOf words) term.items := by
  have compiles : ∀ declaration, readDeclaration text = .ok declaration →
      ∃ assignment, declaration.assignments[position]? = some assignment ∧
        Compiles declaration.toHeader words assignment := by
    intro declaration read
    have placed := Correspondence.rel_getElem? (readDeclaration_compiles read) position
    rw [written] at placed
    generalize declaration.assignments[position]? = found at placed ⊢
    cases placed with
    | some compiles => exact ⟨_, rfl, compiles⟩
  refine ⟨?_, ?_, fun term phrase => phrase.loose⟩
  · intro unordered
    refine rejected_of_not_polish fun declaration read => ?_
    obtain ⟨assignment, placed, items, arranged, becomes⟩ := compiles declaration read
    refine ⟨assignment, List.mem_of_getElem? placed, ?_⟩
    rintro ⟨formula, tokens⟩
    rw [← tokens] at becomes
    obtain ⟨term, rfl⟩ := exists_term_of_tokens becomes
    exact unordered term (arrange_eq_some_iff.mp arranged)
  · intro term loose
    have arranged := loose.arrange_eq
    refine ⟨(arrange_conserves arranged).2, fun declaration read => ?_⟩
    obtain ⟨assignment, placed, items, others, becomes⟩ := compiles declaration read
    obtain rfl := Option.some.inj (others.symm.trans arranged)
    obtain ⟨formula, tokens, means⟩ := term.exists_means becomes
    exact ⟨assignment, formula, placed, means, tokens.symm⟩

def trailing : String := "module M (\ninput a, b\noutput y\n);\nassign y = a b AND\nendmodule\n"

def trailingNetlist : Netlist where
  name := "M"
  clocked := false
  inputs := ["a", "b"]
  flipflops := []
  outputs := ["y"]
  assignments :=
    [⟨.output 0, [.signal (.input 0), .signal (.input 1), .gate (.binary .and)]⟩]

def gateless : String := "module M (\ninput a, b\noutput y\n);\nassign y = a b\nendmodule\n"

theorem rejected_or_compiled_trailing :
    Rejected gateless ∧
      ∃ declaration assignment formula, readDeclaration trailing = .ok declaration ∧
        declaration.assignments[0]? = some assignment ∧
        Means declaration.toHeader (.binary .and (.operand ['a']) (.operand ['b'])) formula ∧
        assignment.expression = formula.tokens := by
  have gatelessWritten : (expressionsOf gateless)[0]? = some (["a", "b"].map String.toList) := by
    decide +kernel
  have trailingWritten :
      (expressionsOf trailing)[0]? = some (["a", "b", "AND"].map String.toList) := by
    decide +kernel
  obtain ⟨rejects, _⟩ := rejected_or_compiled gateless 0 _ gatelessWritten
  obtain ⟨_, compiles, _⟩ := rejected_or_compiled trailing 0 _ trailingWritten
  refine ⟨rejects fun term loose => ?_, ?_⟩
  · have read : arrange (atomsOf (["a", "b"].map String.toList)) [] =
        some [.operand ['a'], .operand ['b']] := by
      decide +kernel
    have same := congrArg List.getLast? (Option.some.inj (read.symm.trans loose.arrange_eq))
    have other := congrArg List.length (Option.some.inj (read.symm.trans loose.arrange_eq))
    cases term with
    | operand name => simp [Term.items] at other
    | not inner => simp [Term.items] at same
    | binary gate first last => simp [Term.items] at same
  · have loose : Loose .chain (atomsOf (["a", "b", "AND"].map String.toList))
        (Term.binary .and (.operand ['a']) (.operand ['b'])).items :=
      arrange_eq_some_iff.mp (by decide +kernel)
    obtain ⟨_, compiled⟩ := compiles _ loose
    have read : readDeclaration trailing =
        .ok ⟨trailingNetlist.toHeader, trailingNetlist.assignments⟩ := by
      decide +kernel
    obtain ⟨assignment, formula, placed, means, tokens⟩ := compiled _ read
    exact ⟨_, assignment, formula, read, placed, means, tokens⟩

theorem Phrase.exists_last {rank : Rank} {atoms : List Atom} {term : Term}
    (phrase : Phrase rank atoms term) :
    ∃ front last, atoms = front ++ [last] ∧ ∀ kind, last ≠ .gate kind := by
  induction phrase with
  | @operand name _ => exact ⟨[], .operand name, rfl, by simp⟩
  | not _ ih =>
      obtain ⟨front, last, rfl, differs⟩ := ih
      exact ⟨_ :: front, last, rfl, differs⟩
  | @group atoms _ _ _ => exact ⟨.opening :: atoms, .closing, rfl, by simp⟩
  | factor _ ih => exact ih
  | @binary front _ _ _ gate _ _ _ backIh =>
      obtain ⟨back, last, rfl, differs⟩ := backIh
      exact ⟨front ++ .gate (.binary gate) :: back, last, by simp, differs⟩

/-- The words are no sentence, and the module works all the same. -/
theorem trailing_gate_accepted :
    expressionsOf trailing = [["a", "b", "AND"].map String.toList] ∧
      (¬ ∃ term, Phrase .chain (atomsOf (["a", "b", "AND"].map String.toList)) term) ∧
      ¬ Rejected trailing ∧ readNetlist trailing = .ok trailingNetlist ∧
      (trailingNetlist.simulator.tick [.high, .high]).circuit.outputs = [.high] := by
  have atoms : atomsOf (["a", "b", "AND"].map String.toList) =
      [.operand ['a'], .operand ['b']] ++ [.gate (.binary .and)] := by
    decide +kernel
  have accepted : readNetlist trailing = .ok trailingNetlist := by decide +kernel
  have ticked : (trailingNetlist.simulator.tick [.high, .high]).result = .ok () := by
    decide +kernel
  refine ⟨by decide +kernel, ?_, ?_, accepted, by decide +kernel⟩
  · rintro ⟨term, phrase⟩
    obtain ⟨front, last, split, differs⟩ := phrase.exists_last
    rw [atoms] at split
    exact differs _ (List.singleton_inj.mp (List.append_inj' split rfl).2).symm
  · rintro (⟨error, failed⟩ | ⟨netlist, read, fails⟩)
    · cases accepted.symm.trans failed
    · obtain rfl := Except.ok.inj (accepted.symm.trans read)
      rcases fails _ trailingNetlist.simulator_runs [.high, .high] rfl with failed | ⟨_, _, failed⟩
      · cases ticked.symm.trans failed
      · cases ticked.symm.trans failed

end GateLevel.Source
