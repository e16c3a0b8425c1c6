import GateLevel.Proofs.Correspondence
import GateLevel.Proofs.Source.Conservation
import GateLevel.Proofs.Source.Scan
import GateLevel.Proofs.Source.Scope
import GateLevel.Proofs.Source.Writer

/-! Where a text mentions flip-flops can be told from its words alone. The reader goes along with
that and gives every mention its slot. -/

namespace GateLevel.Source

namespace Collector

def mentions : Collector where
  ofTarget word := (flipflopDigits? word).toList
  ofExpression word := (peel word).filterMap flipflopDigits?

theorem flatMap_mentions (words : List (List Char)) :
    words.flatMap mentions.ofExpression = (words.flatMap peel).filterMap flipflopDigits? :=
  List.filterMap_flatMap.symm

end Collector

/-- The digits of the flip-flops that each assignment of a text mentions, in the order of the
text. -/
def mentionsOf (text : String) : List (List (List Char)) := Collector.mentions.collect text

def Numbers (flipflops : List UInt16) (mentions : List (List Char)) : Prop :=
  flipflops.map UInt16.toNat = (mentions.map decimalValue).eraseDups

def Points (flipflops : List UInt16) (slot : Nat) (mention : List Char) : Prop :=
  flipflops[slot]?.map UInt16.toNat = some (decimalValue mention)

theorem Points.grow {flipflops later : List UInt16} {slot : Nat} {mention : List Char}
    (points : Points flipflops slot mention) (grows : flipflops <+: later) :
    Points later slot mention := by
  obtain ⟨more, rfl⟩ := grows
  obtain ⟨number, found, value⟩ := Option.map_eq_some_iff.mp points
  have bound := (List.getElem?_eq_some_iff.mp found).1
  rw [Points, List.getElem?_append_left bound, found, Option.map_some, value]

structure Mentioned (before after : Declaration) (slots : List Nat) (mentions : List (List Char)) :
    Prop where
  numbered : ∀ earlier, Numbers before.flipflops earlier →
    Numbers after.flipflops (earlier ++ mentions)
  points : List.Forall₂ (Points after.flipflops) slots mentions

namespace Mentioned

variable {before middle after : Declaration} {slots moreSlots : List Nat}
  {mentions more : List (List Char)}

theorem none (flipflops : after.flipflops = before.flipflops) : Mentioned before after [] [] := by
  refine ⟨fun earlier numbered => ?_, .nil⟩
  rwa [List.append_nil, flipflops]

theorem trans (front : Mentioned before middle slots mentions)
    (back : Mentioned middle after moreSlots more)
    (grows : middle.flipflops <+: after.flipflops) :
    Mentioned before after (slots ++ moreSlots) (mentions ++ more) where
  numbered earlier numbered := by
    rw [← List.append_assoc]
    exact back.numbered _ (front.numbered earlier numbered)
  points := List.rel_append (front.points.imp fun _ _ points => points.grow grows) back.points

end Mentioned

theorem eraseDups_concat {α : Type} [BEq α] [LawfulBEq α] (list : List α) (x : α) :
    (list ++ [x]).eraseDups = if x ∈ list then list.eraseDups else list.eraseDups ++ [x] := by
  by_cases old : x ∈ list
  · simp [List.eraseDups_append, List.removeAll, old]
  · simp [List.eraseDups_append, List.removeAll, old, List.eraseDups_cons]

section

variable {flipflops : List UInt16} {earlier : List (List Char)} {number : UInt16}
  {mention : List Char} (value : number.toNat = decimalValue mention)
include value

theorem Numbers.mem_iff (numbered : Numbers flipflops earlier) :
    decimalValue mention ∈ earlier.map decimalValue ↔ number ∈ flipflops := by
  rw [← List.mem_eraseDups, ← numbered, ← value]
  constructor
  · intro listed
    obtain ⟨other, member, same⟩ := List.mem_map.mp listed
    rwa [← UInt16.toNat_inj.mp same]
  · exact List.mem_map_of_mem

theorem Numbers.again (numbered : Numbers flipflops earlier) (old : number ∈ flipflops) :
    Numbers flipflops (earlier ++ [mention]) := by
  rw [Numbers, List.map_append, List.map_singleton, eraseDups_concat,
    if_pos ((numbered.mem_iff value).mpr old)]
  exact numbered

theorem Numbers.first (numbered : Numbers flipflops earlier) (new : number ∉ flipflops) :
    Numbers (flipflops ++ [number]) (earlier ++ [mention]) := by
  have unmentioned := mt (numbered.mem_iff value).mp new
  rw [Numbers, List.map_append, List.map_append, List.map_singleton, List.map_singleton,
    eraseDups_concat, if_neg unmentioned, ← numbered, value]

theorem Mention.mentioned {before after : Declaration} {slot : Nat}
    (once : Mention number before slot after) : Mentioned before after [slot] [mention] := by
  cases once with
  | again found =>
      obtain ⟨bound, same, _⟩ := List.idxOf?_eq_some_iff.mp found
      have there : before.flipflops[slot]? = some number := by
        rw [List.getElem?_eq_getElem bound, same]
      refine ⟨fun earlier numbered => ?_, .cons ?_ .nil⟩
      · exact numbered.again value (List.mem_of_getElem? there)
      · rw [Points, there, Option.map_some, value]
  | first _ fresh =>
      refine ⟨fun earlier numbered => ?_, .cons ?_ .nil⟩
      · exact numbered.first value fresh
      · rw [Points, List.getElem?_concat_length, Option.map_some, value]

end

theorem flipflopNumber?_eq_some {word : List Char} {number : UInt16}
    (named : flipflopNumber? word = .ok (some number)) :
    ∃ mention, flipflopDigits? word = some mention ∧ number.toNat = decimalValue mention := by
  simp only [flipflopNumber?] at named
  split at named
  · cases named
  · rename_i digits found
    split at named
    · rename_i small
      cases named
      refine ⟨digits, found, ?_⟩
      rw [UInt16.toNat_ofNat']
      exact Nat.mod_eq_of_lt small
    · cases named

theorem flipflopNumber?_eq_none {word : List Char} (named : flipflopNumber? word = .ok none) :
    flipflopDigits? word = none := by
  simp only [flipflopNumber?] at named
  split at named
  · assumption
  · split at named <;> cases named

theorem Resolves.mentioned {before after : Declaration} {word : List Char} {signal : Signal}
    (resolves : Resolves word before signal after) :
    Mentioned before after signal.slots (flipflopDigits? word).toList := by
  cases resolves with
  | flipflop named mention =>
      obtain ⟨digits, found, value⟩ := flipflopNumber?_eq_some named
      rw [found]
      exact mention.mentioned value
  | input unnumbered _ =>
      rw [flipflopNumber?_eq_none unnumbered]
      exact .none rfl
  | output unnumbered _ =>
      rw [flipflopNumber?_eq_none unnumbered]
      exact .none rfl

theorem ResolvesAll.mentioned {before after : Declaration} {items : List Item}
    {tokens : List Token} (resolves : ResolvesAll items before tokens after) :
    Mentioned before after ((tokens.filterMap Token.signal?).flatMap Signal.slots)
      ((items.filterMap Item.name?).filterMap flipflopDigits?) := by
  induction resolves with
  | nil => exact .none rfl
  | gate _ ih => exact ih
  | @operand word signal items tokens _ _ _ first rest ih =>
      have names : ((Item.operand word :: items).filterMap Item.name?).filterMap
          flipflopDigits? = (flipflopDigits? word).toList ++
            (items.filterMap Item.name?).filterMap flipflopDigits? := by
        cases digits : flipflopDigits? word <;> simp [Item.name?, digits]
      rw [names]
      exact first.mentioned.trans ih rest.enrols.grows.flipflops

theorem flipflopDigits?_mnemonic (gate : Gate) : flipflopDigits? gate.mnemonic.toList = none := by
  cases gate with
  | not => rfl
  | binary gate => cases gate <;> rfl

theorem bind_name?_ofWord (word : List Char) :
    (Atom.ofWord word).name?.bind flipflopDigits? = flipflopDigits? word := by
  simp only [Atom.ofWord]
  split
  · rename_i opening
    rw [opening]
    rfl
  · split
    · rename_i closing
      rw [closing]
      rfl
    · split
      · rename_i gate named
        have same : gate.mnemonic = String.ofList word := by
          simpa using List.find?_some named
        have spelled : word = gate.mnemonic.toList := by rw [same, String.toList_ofList]
        rw [spelled, flipflopDigits?_mnemonic]
        rfl
      · rfl

/-- The operands keep their order, and nothing but an operand mentions a flip-flop. -/
theorem filterMap_name?_itemsOfWords {words : List (List Char)} {items : List Item}
    (read : itemsOfWords words = some items) :
    (items.filterMap Item.name?).filterMap flipflopDigits? =
      (words.flatMap peel).filterMap flipflopDigits? := by
  rw [(arrange_conserves read).2, List.filterMap_map, List.filterMap_filterMap]
  exact congrArg (List.filterMap · _) (funext bind_name?_ofWord)

namespace Phase

def slots : Phase → List Nat
  | equals goal => goal.signal.slots
  | _ => []

end Phase

theorem Move.mentioned {reader next : Reader} {word : List Char} (move : Move reader word next) :
    ∃ slots, next.phase.slots = reader.phase.slots ++ slots ∧
      Mentioned reader.declaration next.declaration slots
        (Collector.mentions.take word reader.phase.place) := by
  cases move with
  | drives named mention =>
      obtain ⟨digits, found, value⟩ := flipflopNumber?_eq_some named
      refine ⟨_, rfl, ?_⟩
      simp only [Phase.place, Collector.take, Collector.mentions, found]
      exact mention.mentioned value
  | _ => exact ⟨[], rfl, .none rfl⟩

structure Tracks (finished : List (List (List Char))) (current : List (List Char))
    (reader : Reader) : Prop where
  numbered : Numbers reader.declaration.flipflops (finished.flatten ++ current)
  finished : List.Forall₂
    (fun assignment => List.Forall₂ (Points reader.declaration.flipflops) assignment.slots)
    reader.declaration.assignments finished
  current : List.Forall₂ (Points reader.declaration.flipflops) reader.phase.slots current

namespace Tracks

variable {finished : List (List (List Char))} {current : List (List Char)}

theorem extend {reader : Reader} (tracks : Tracks finished current reader) {later : List UInt16}
    (grows : reader.declaration.flipflops <+: later) :
    List.Forall₂ (fun assignment => List.Forall₂ (Points later) assignment.slots)
        reader.declaration.assignments finished ∧
      List.Forall₂ (Points later) reader.phase.slots current :=
  ⟨tracks.finished.imp fun _ _ points => points.imp fun _ _ point => point.grow grows,
    tracks.current.imp fun _ _ point => point.grow grows⟩

theorem move {reader next : Reader} {word : List Char} (tracks : Tracks finished current reader)
    (move : Move reader word next) :
    Tracks finished (current ++ Collector.mentions.take word reader.phase.place) next := by
  obtain ⟨slots, pending, mentioned⟩ := move.mentioned
  obtain ⟨older, waiting⟩ := tracks.extend move.grows.flipflops
  refine ⟨?_, ?_, ?_⟩
  · rw [← List.append_assoc]
    exact mentioned.numbered _ tracks.numbered
  · rwa [move.assignments]
  · rw [pending]
    exact List.rel_append waiting mentioned.points

theorem pin {before after : Declaration} (tracks : Tracks finished current ⟨.pins, before⟩)
    (declares : DeclaresPin before after) : Tracks finished current ⟨.pins, after⟩ := by
  cases declares with
  | nothing => exact tracks
  | input _ _ => exact ⟨tracks.numbered, tracks.finished, tracks.current⟩
  | output _ _ => exact ⟨tracks.numbered, tracks.finished, tracks.current⟩

theorem assign {target : Target} {before after : Declaration} {words : List (List Char)}
    (tracks : Tracks finished current ⟨.equals target, before⟩)
    (assigns : Assigns target words before after) :
    Tracks (finished ++ [current ++ words.flatMap Collector.mentions.ofExpression]) []
      ⟨.body, after⟩ := by
  cases assigns with
  | appends read resolves =>
      have mentioned := resolves.mentioned
      rw [filterMap_name?_itemsOfWords read, ← Collector.flatMap_mentions] at mentioned
      obtain ⟨older, waiting⟩ := tracks.extend resolves.enrols.grows.flipflops
      refine ⟨?_, ?_, .nil⟩
      · have numbered := mentioned.numbered _ tracks.numbered
        simpa [List.append_assoc] using numbered
      · have own := List.rel_append waiting mentioned.points
        exact List.rel_append older (.cons own .nil)

theorem kept : Collector.mentions.Kept Tracks := ⟨move, pin, assign⟩

end Tracks

theorem readDeclaration_tracks {text : String} {declaration : Declaration}
    (read : readDeclaration text = .ok declaration) :
    Numbers declaration.flipflops (mentionsOf text).flatten ∧
      List.Forall₂
        (fun assignment => List.Forall₂ (Points declaration.flipflops) assignment.slots)
        declaration.assignments (mentionsOf text) := by
  obtain ⟨current, tracks⟩ := Tracks.kept.readDeclaration read ⟨rfl, .nil, .nil⟩
  have none := List.forall₂_nil_left_iff.mp tracks.current
  have numbered := tracks.numbered
  rw [none, List.append_nil] at numbered
  exact ⟨numbered, tracks.finished⟩

end GateLevel.Source
