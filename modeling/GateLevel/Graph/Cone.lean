import GateLevel.Graph.Walk

/-! Logic cones: the inputs that reach a target. -/

namespace GateLevel

structure Cone where
  inputs : List Nat
  ascending : inputs.Pairwise (· < ·)
  deriving DecidableEq, Repr

namespace Cone

def empty : Cone := ⟨[], .nil⟩

instance : Membership Nat Cone := ⟨fun cone index => index ∈ cone.inputs⟩

def insertInto (index : Nat) : List Nat → List Nat
  | [] => [index]
  | first :: rest =>
    if index < first then index :: first :: rest
    else if index = first then first :: rest
    else first :: insertInto index rest

theorem mem_insertInto (index other : Nat) (inputs : List Nat) :
    other ∈ insertInto index inputs ↔ other = index ∨ other ∈ inputs := by
  induction inputs with
  | nil => simp [insertInto]
  | cons first rest ih =>
      simp only [insertInto]
      split
      · simp
      · split
        next same => simp [same]
        next => simp only [List.mem_cons, ih]; grind

theorem pairwise_insertInto (index : Nat) (inputs : List Nat)
    (ascending : inputs.Pairwise (· < ·)) : (insertInto index inputs).Pairwise (· < ·) := by
  induction inputs with
  | nil => simp [insertInto]
  | cons first rest ih =>
      have ⟨below, later⟩ := List.pairwise_cons.mp ascending
      simp only [insertInto]
      split
      next smaller =>
        refine List.pairwise_cons.mpr ⟨?_, ascending⟩
        intro other member
        rcases List.mem_cons.mp member with same | member
        · omega
        · have := below other member
          omega
      · split
        · exact ascending
        next =>
          refine List.pairwise_cons.mpr ⟨?_, ih later⟩
          intro other member
          rcases (mem_insertInto index other rest).mp member with same | member
          · omega
          · exact below other member

def insert (index : Nat) (cone : Cone) : Cone :=
  ⟨insertInto index cone.inputs, pairwise_insertInto index cone.inputs cone.ascending⟩

theorem mem_insert (index other : Nat) (cone : Cone) :
    other ∈ cone.insert index ↔ other = index ∨ other ∈ cone :=
  mem_insertInto index other cone.inputs

def union (first second : Cone) : Cone :=
  second.inputs.foldl (fun cone index => cone.insert index) first

theorem mem_union (first second : Cone) (index : Nat) :
    index ∈ first.union second ↔ index ∈ first ∨ index ∈ second := by
  have general : ∀ (inputs : List Nat) (cone : Cone),
      index ∈ inputs.foldl (fun cone index => cone.insert index) cone ↔
        index ∈ cone ∨ index ∈ inputs := by
    intro inputs
    induction inputs with
    | nil => simp
    | cons head rest ih =>
        intro cone
        simp only [List.foldl_cons, ih, mem_insert, List.mem_cons]
        grind
  exact general second.inputs first

def isSubset (first second : Cone) : Bool := first.inputs.all second.inputs.contains

theorem isSubset_iff (first second : Cone) :
    first.isSubset second = true ↔ ∀ index, index ∈ first → index ∈ second := by
  simp [isSubset, Membership.mem]

end Cone

structure Reuse where
  flipflop : Nat
  target : Target
  deriving DecidableEq, Repr

structure Cones where
  entries : List (Target × Cone)
  deriving DecidableEq, Repr

namespace Cones

def empty : Cones := ⟨[]⟩

def find? (target : Target) (cones : Cones) : Option Cone := cones.entries.lookup target

def cone (target : Target) (cones : Cones) : Cone := (cones.find? target).getD .empty

def replaceIn (target : Target) (cone : Cone) : List (Target × Cone) → List (Target × Cone)
  | [] => []
  | (other, old) :: rest =>
    if other = target then (target, cone) :: rest
    else (other, old) :: replaceIn target cone rest

def replace (target : Target) (cone : Cone) (cones : Cones) : Cones :=
  if (cones.find? target).isSome then ⟨replaceIn target cone cones.entries⟩
  else ⟨(target, cone) :: cones.entries⟩

theorem lookup_replaceIn (target other : Target) (cone : Cone) (entries : List (Target × Cone)) :
    (replaceIn target cone entries).lookup other =
      if other = target ∧ (entries.lookup target).isSome then some cone
      else entries.lookup other := by
  induction entries with
  | nil => simp [replaceIn]
  | cons entry rest ih =>
      obtain ⟨first, old⟩ := entry
      simp only [replaceIn]
      split
      next same => simp only [List.lookup_cons]; grind
      next different => simp only [List.lookup_cons, ih]; grind

theorem find?_replace (target other : Target) (cone : Cone) (cones : Cones) :
    (cones.replace target cone).find? other =
      if other = target then some cone else cones.find? other := by
  simp only [replace]
  split
  next present => simp only [find?, lookup_replaceIn] at present ⊢; grind
  next absent => simp only [find?, List.lookup_cons] at absent ⊢; grind

def add (index : Nat) (target : Target) (cones : Cones) : Cones :=
  let cone := cones.cone target
  if cone.inputs.contains index then cones else cones.replace target (cone.insert index)

def absorb (cones : Cones) (reuse : Reuse) : Cones :=
  match cones.find? (.flipflop reuse.flipflop) with
  | none => cones
  | some cone => cones.replace reuse.target ((cones.cone reuse.target).union cone)

def holds (cones : Cones) (reuse : Reuse) : Bool :=
  match cones.find? (.flipflop reuse.flipflop) with
  | none => true
  | some cone => cone.isSubset (cones.cone reuse.target)

def absorbAll (reuses : List Reuse) (cones : Cones) : Cones × Bool :=
  reuses.foldl (fun (cones, changed) reuse => (cones.absorb reuse, changed || !cones.holds reuse))
    (cones, false)

/-- Absorbs round by round until a round adds no input. `order` gives the sequence of every
round; none if `fuel` rounds are not enough. -/
def closeFrom (order : Nat → List Reuse) (round : Nat) : Nat → Cones → Option Cones
  | 0, _ => none
  | fuel + 1, cones =>
    let (next, changed) := cones.absorbAll (order round)
    if changed then closeFrom order (round + 1) fuel next else some next

/-- The least cones that contain the given ones and hold, with every reuse, the cone of its
flip-flop in that of its target. In every round that adds something an input travels along one
more reuse, so there are no more such rounds than reuses. -/
def close (reuses : List Reuse) (cones : Cones) : Cones :=
  (cones.closeFrom (fun _ => reuses) 0 (reuses.length + 1)).getD cones

def sorted (cones : Cones) : List (Target × Cone) :=
  cones.entries.mergeSort fun first second => first.1.precedes second.1

def ofSightings : List Sighting → Cones
  | [] => .empty
  | .input index _ under :: rest => under.foldl (fun cones target => cones.add index target)
      (ofSightings rest)
  | .reuse _ _ :: rest => ofSightings rest

/-- The cones as they stand during the walks: a flip-flop that is met again hands on at once
what it has so far. -/
def gathered : List Sighting → Cones
  | [] => .empty
  | .input index _ under :: rest =>
    under.foldl (fun cones target => cones.add index target) (gathered rest)
  | .reuse flipflop under :: rest =>
    match (gathered rest).find? (.flipflop flipflop) with
    | none => gathered rest
    | some cone =>
      under.foldl (fun cones target => cones.replace target ((cones.cone target).union cone))
        (gathered rest)

end Cones

namespace Sighting

/-- A flip-flop gives nothing to itself. -/
def reuses : Sighting → List Reuse
  | input _ _ _ => []
  | reuse flipflop under =>
    (under.filter (· ≠ .flipflop flipflop)).map fun target => ⟨flipflop, target⟩

end Sighting

namespace Walker

def reuses (walker : Walker) : List Reuse := (walker.sightings.flatMap Sighting.reuses).eraseDups

def cones (walker : Walker) : Cones :=
  (Cones.ofSightings walker.sightings).close walker.reuses

end Walker

end GateLevel
