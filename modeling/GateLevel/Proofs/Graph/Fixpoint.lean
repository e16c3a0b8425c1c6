import GateLevel.Proofs.Graph.Paths
import Mathlib.Order.Bounds.Basic

/-! Closing cones over reuses computes a least fixed point. The sequence in which a round takes the
reuses shows neither in the cones nor, unless some cone is empty, in which targets have one. -/

namespace GateLevel

namespace Cones

def members (cones : Cones) (target : Target) : Set Nat := {index | index ∈ cones.cone target}

/-- A family of inputs that contains the cones and respects every reuse. -/
structure Closed (reuses : List Reuse) (cones : Cones) (family : Target → Set Nat) : Prop where
  contains : cones.members ≤ family
  respects : ∀ reuse ∈ reuses, family (.flipflop reuse.flipflop) ⊆ family reuse.target

/-- The targets that may have an entry in the end: those that had one, and those that receive the
cone of a flip-flop that has one. -/
inductive Entitled (reuses : List Reuse) (cones closed : Cones) : Target → Prop
  | given {target} : (cones.find? target).isSome → Entitled reuses cones closed target
  | receives {reuse} : reuse ∈ reuses →
      Entitled reuses cones closed (.flipflop reuse.flipflop) →
      (closed.find? (.flipflop reuse.flipflop)).isSome →
      Entitled reuses cones closed reuse.target

theorem isSome_absorb_iff (cones : Cones) (reuse : Reuse) (target : Target) :
    ((cones.absorb reuse).find? target).isSome ↔ (cones.find? target).isSome ∨
      (target = reuse.target ∧ (cones.find? (.flipflop reuse.flipflop)).isSome) := by
  simp only [absorb]
  cases found : cones.find? (.flipflop reuse.flipflop) with
  | none => simp
  | some cone =>
      rw [find?_replace]
      by_cases same : target = reuse.target
      · simp [same]
      · simp [same]

theorem isSome_absorbAll (reuses : List Reuse) {cones : Cones} {target : Target}
    (entry : (cones.find? target).isSome) :
    ((cones.absorbAll reuses).1.find? target).isSome := by
  induction reuses generalizing cones with
  | nil => exact entry
  | cons reuse rest ih =>
      rw [absorbAll_cons]
      exact ih ((isSome_absorb_iff ..).mpr (Or.inl entry))

section

variable {order : Nat → List Reuse} {cones closed : Cones} {round fuel : Nat}

theorem isSome_closeFrom (ended : cones.closeFrom order round fuel = some closed)
    {target : Target} (entry : (cones.find? target).isSome) :
    (closed.find? target).isSome := by
  induction fuel generalizing round cones with
  | zero => simp [closeFrom] at ended
  | succ fuel ih =>
      have kept := isSome_absorbAll (order round) entry
      simp only [closeFrom] at ended
      split at ended
      · exact ih ended kept
      · exact Option.some.inj ended ▸ kept

/-- A budget that is enough is enough with more added to it. -/
theorem closeFrom_of_le {more : Nat} (bound : fuel ≤ more)
    (ended : cones.closeFrom order round fuel = some closed) :
    cones.closeFrom order round more = some closed := by
  induction fuel generalizing round cones more with
  | zero => simp [closeFrom] at ended
  | succ fuel ih =>
      obtain ⟨more, rfl⟩ := Nat.exists_eq_add_of_lt bound
      rw [closeFrom] at ended ⊢
      split at ended
      split at ended
      · rename_i changed
        rw [if_pos changed]
        exact ih (by omega) ended
      · rename_i unchanged
        rw [if_neg unchanged]
        exact ended

end

section

variable {reuses : List Reuse} {order : Nat → List Reuse} {start cones closed : Cones}

theorem entitled_absorbAll {taken : List Reuse} (known : ∀ reuse ∈ taken, reuse ∈ reuses)
    (kept : ∀ target, ((cones.absorbAll taken).1.find? target).isSome →
      (closed.find? target).isSome)
    (entitled : ∀ target, (cones.find? target).isSome → Entitled reuses start closed target)
    (target : Target) (entry : ((cones.absorbAll taken).1.find? target).isSome) :
    Entitled reuses start closed target := by
  induction taken generalizing cones with
  | nil => exact entitled target entry
  | cons reuse rest ih =>
      simp only [absorbAll_cons] at kept entry
      refine ih (fun other member => known other (List.mem_cons_of_mem _ member)) kept ?_ entry
      intro other gained
      rcases (isSome_absorb_iff ..).mp gained with old | ⟨rfl, source⟩
      · exact entitled other old
      · -- The flip-flop keeps its entry to the end.
        have lasting := kept _ (isSome_absorbAll rest ((isSome_absorb_iff ..).mpr (Or.inl source)))
        exact .receives (known reuse (by simp)) (entitled _ source) lasting

variable (same : ∀ round reuse, reuse ∈ order round ↔ reuse ∈ reuses)

include same

theorem entitled_closeFrom {round fuel : Nat}
    (ended : cones.closeFrom order round fuel = some closed)
    (entitled : ∀ target, (cones.find? target).isSome → Entitled reuses start closed target)
    (target : Target) (entry : (closed.find? target).isSome) :
    Entitled reuses start closed target := by
  induction fuel generalizing round cones with
  | zero => simp [closeFrom] at ended
  | succ fuel ih =>
      have known : ∀ reuse ∈ order round, reuse ∈ reuses := fun reuse => (same round reuse).mp
      simp only [closeFrom] at ended
      split at ended
      · exact ih ended (entitled_absorbAll known (fun _ => isSome_closeFrom ended) entitled)
      · obtain rfl := Option.some.inj ended
        exact entitled_absorbAll known (fun _ => id) entitled target entry

theorem isLeast_closeFrom {fuel : Nat}
    (ended : cones.closeFrom order 0 fuel = some closed) :
    IsLeast {family | Closed reuses cones family} closed.members := by
  have flows (index : Nat) (target : Target) := mem_closeFrom_iff same ended index target
  constructor
  · constructor
    · intro target index present
      exact (flows index target).mpr (.start present)
    · intro reuse member index present
      exact (flows index _).mpr (.pass member ((flows index _).mp present))
  · intro family isClosed target index present
    have reaches := (flows index target).mp present
    induction reaches with
    | start own => exact isClosed.contains _ own
    | pass member reaches ih =>
        exact isClosed.respects _ member (ih ((flows index _).mpr reaches))

/-- With no empty cone to begin with, there is an entry wherever there may be one. -/
theorem Proper.isSome_closeFrom_iff {fuel : Nat} (proper : cones.Proper)
    (ended : cones.closeFrom order 0 fuel = some closed) (target : Target) :
    (closed.find? target).isSome ↔ Entitled reuses cones closed target := by
  refine ⟨entitled_closeFrom same ended (fun _ => .given) target, fun entitled => ?_⟩
  rw [(proper.closeFrom ended).isSome_iff]
  induction entitled with
  | given entry =>
      obtain ⟨index, present⟩ := (proper.isSome_iff _).mp entry
      exact ⟨index, (mem_closeFrom_iff same ended index _).mpr (.start present)⟩
  | receives member _ _ ih =>
      obtain ⟨index, present⟩ := ih
      have reaches := (mem_closeFrom_iff same ended index _).mp present
      exact ⟨index, (mem_closeFrom_iff same ended index _).mpr (.pass member reaches)⟩

theorem cone_closeFrom_eq {fuel : Nat} (ended : cones.closeFrom order 0 fuel = some closed)
    (target : Target) : closed.cone target = (cones.close reuses).cone target := by
  apply Cone.ext_mem
  intro index
  rw [mem_closeFrom_iff same ended, mem_close_iff]

end

/-- Whatever the sequence of the reuses in each round, closing ends, with the least family that
contains the cones and respects the reuses. Entries stay, and a new one comes only of a flip-flop
that has one. -/
theorem closing_least (reuses : List Reuse) (order : Nat → List Reuse) (cones : Cones)
    (same : ∀ round reuse, reuse ∈ order round ↔ reuse ∈ reuses) :
    ∃ closed, (∀ fuel, reuses.length < fuel → cones.closeFrom order 0 fuel = some closed) ∧
      IsLeast {family | Closed reuses cones family} closed.members ∧
      (∀ target, closed.cone target = (cones.close reuses).cone target) ∧
      (∀ target, (cones.find? target).isSome → (closed.find? target).isSome) ∧
      (∀ target, (closed.find? target).isSome → Entitled reuses cones closed target) ∧
      (cones.Proper → ∀ target,
        Entitled reuses cones closed target → (closed.find? target).isSome) := by
  obtain ⟨closed, ended⟩ := exists_closeFrom_length same cones
  refine ⟨closed, ?_, isLeast_closeFrom same ended, cone_closeFrom_eq same ended, ?_, ?_, ?_⟩
  · exact fun fuel enough => closeFrom_of_le enough ended
  · exact fun target => isSome_closeFrom ended
  · exact entitled_closeFrom same ended fun _ => .given
  · exact fun proper target => (proper.isSome_closeFrom_iff same ended target).mpr

def exchange : List Reuse :=
  [⟨1, .output 0⟩, ⟨0, .flipflop 1⟩, ⟨1, .flipflop 0⟩, ⟨0, .flipflop 0⟩, ⟨2, .output 1⟩]

def shares : Cones :=
  ⟨[(.flipflop 0, Cone.empty.insert 3), (.flipflop 1, Cone.empty.insert 5)]⟩

def alternating (round : Nat) : List Reuse :=
  if round % 2 = 0 then exchange else exchange.reverse

theorem closing_least_exchange :
    (∀ round reuse, reuse ∈ alternating round ↔ reuse ∈ exchange) ∧
      ∃ closed, shares.closeFrom alternating 0 6 = some closed ∧
        closed.members (.output 0) = {3, 5} ∧ closed.find? (.output 1) = none := by
  have same : ∀ round reuse, reuse ∈ alternating round ↔ reuse ∈ exchange := by
    intro round reuse
    simp only [alternating]
    split
    · exact Iff.rfl
    · exact List.mem_reverse
  obtain ⟨closed, ends, _, cones, _, entitled, _⟩ := closing_least exchange alternating shares same
  refine ⟨same, closed, ends 6 (by decide), ?_, ?_⟩
  · have computed : (shares.close exchange).cone (.output 0) = ⟨[3, 5], by decide⟩ := by decide
    ext index
    show index ∈ (closed.cone (.output 0)).inputs ↔ _
    rw [cones, computed]
    simp
  · have unknown : ∀ target, Entitled exchange shares closed target →
        target ≠ .flipflop 2 ∧ target ≠ .output 1 := by
      intro target entitled
      induction entitled with
      | given own =>
          constructor
          · rintro rfl
            simp [shares, find?] at own
          · rintro rfl
            simp [shares, find?] at own
      | @receives reuse member _ _ ih =>
          rcases reuse with ⟨flipflop, target⟩
          simp only [exchange, List.mem_cons, Reuse.mk.injEq] at member
          grind
    rw [← Option.not_isSome_iff_eq_none]
    exact fun entry => (unknown _ (entitled _ entry)).2 rfl

/-- An empty cone gets to the output only in one of the two sequences. -/
example :
    let reuses : List Reuse := [⟨0, .flipflop 1⟩, ⟨1, .output 0⟩]
    let cones : Cones := ⟨[(.flipflop 0, .empty)]⟩
    (cones.close reuses).find? (.output 0) = some .empty ∧
      (cones.close reuses.reverse).find? (.output 0) = none := by
  decide

end Cones

end GateLevel
