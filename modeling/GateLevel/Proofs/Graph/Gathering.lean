import GateLevel.Proofs.Graph.Closure

/-! Handing on, during the walks, what a flip-flop has so far is not needed: closing over the reuses
gives the same cones with it and without it. -/

namespace GateLevel

namespace Cones

theorem mem_foldl_replace_iff (given : Cone) (under : List Target) (cones : Cones)
    (target : Target) (index : Nat) :
    index ∈ (under.foldl (fun cones target =>
        cones.replace target ((cones.cone target).union given)) cones).cone target ↔
      index ∈ cones.cone target ∨ (target ∈ under ∧ index ∈ given) := by
  induction under generalizing cones with
  | nil => simp
  | cons first rest ih =>
      rw [List.foldl_cons, ih, cone_replace, List.mem_cons]
      by_cases same : target = first
      · subst same
        simp only [if_true, Cone.mem_union]
        grind
      · simp [same]

theorem mem_gathered_of_mem_ofSightings {sightings : List Sighting} {target : Target} {index : Nat}
    (member : index ∈ (ofSightings sightings).cone target) :
    index ∈ (gathered sightings).cone target := by
  induction sightings with
  | nil => exact member
  | cons sighting rest ih =>
      cases sighting with
      | input input trail under =>
          simp only [ofSightings, gathered, mem_foldl_add_iff] at member ⊢
          exact member.imp ih id
      | reuse flipflop under =>
          simp only [gathered]
          cases (gathered rest).find? (.flipflop flipflop) with
          | none => exact ih member
          | some cone => exact (mem_foldl_replace_iff ..).mpr (Or.inl (ih member))

theorem Flows.mono {reuses : List Reuse} {cones later : Cones} {index : Nat} {target : Target}
    (kept : ∀ target, index ∈ cones.cone target → index ∈ later.cone target)
    (flows : Flows reuses cones index target) : Flows reuses later index target := by
  induction flows with
  | start present => exact .start (kept _ present)
  | pass member _ ih => exact .pass member ih

theorem flows_of_mem_gathered {reuses : List Reuse} {sightings : List Sighting}
    (joined : ∀ sighting ∈ sightings, ∀ reuse ∈ sighting.reuses, reuse ∈ reuses)
    {target : Target} {index : Nat} (member : index ∈ (gathered sightings).cone target) :
    Flows reuses (ofSightings sightings) index target := by
  induction sightings generalizing target with
  | nil => exact .start member
  | cons sighting rest ih =>
      have earlier := fun sighting member => joined sighting (List.mem_cons_of_mem _ member)
      cases sighting with
      | input input trail under =>
          simp only [gathered, mem_foldl_add_iff] at member
          rcases member with old | ⟨walked, rfl⟩
          · apply (ih earlier old).mono
            intro other present
            exact (mem_foldl_add_iff ..).mpr (Or.inl present)
          · exact .start ((mem_foldl_add_iff ..).mpr (Or.inr ⟨walked, rfl⟩))
      | reuse flipflop under =>
          simp only [gathered] at member
          cases found : (gathered rest).find? (.flipflop flipflop) with
          | none =>
              rw [found] at member
              exact ih earlier member
          | some cone =>
              simp only [found, mem_foldl_replace_iff, ← cone_of_find? found] at member
              rcases member with old | ⟨walked, given⟩
              · exact ih earlier old
              · have source : Flows reuses (ofSightings rest) index (.flipflop flipflop) :=
                  ih earlier given
                -- A flip-flop under itself is no reuse, and it has the input already.
                by_cases same : target = .flipflop flipflop
                · exact same ▸ source
                · have reuse : (⟨flipflop, target⟩ : Reuse) ∈ reuses := by
                    apply joined _ (List.mem_cons_self ..)
                    simp [Sighting.reuses, walked, same]
                  exact .pass reuse source

theorem Proper.foldl_replace {cones : Cones} (proper : cones.Proper) {given : Cone} {index : Nat}
    (member : index ∈ given) (under : List Target) :
    (under.foldl (fun cones target =>
      cones.replace target ((cones.cone target).union given)) cones).Proper := by
  induction under generalizing cones with
  | nil => exact proper
  | cons first rest ih =>
      exact ih (proper.replace ((Cone.mem_union _ _ index).mpr (Or.inr member)))

theorem proper_gathered (sightings : List Sighting) : (gathered sightings).Proper := by
  induction sightings with
  | nil => simp [gathered, Proper, find?, empty]
  | cons sighting rest ih =>
      cases sighting with
      | input input trail under => exact ih.foldl_add input under
      | reuse flipflop under =>
          simp only [gathered]
          cases found : (gathered rest).find? (.flipflop flipflop) with
          | none => exact ih
          | some cone =>
              obtain ⟨index, member⟩ := ih _ cone found
              exact ih.foldl_replace member under

/-- Without entries for nothing, the entries are known from the cones. -/
theorem Proper.find?_eq {cones later : Cones} (proper : cones.Proper) (other : later.Proper)
    (same : ∀ target index, index ∈ later.cone target ↔ index ∈ cones.cone target)
    (target : Target) : later.find? target = cones.find? target := by
  have entries : (later.find? target).isSome ↔ (cones.find? target).isSome := by
    simp only [other.isSome_iff, proper.isSome_iff, same]
  have cone : later.cone target = cones.cone target := Cone.ext_mem (same target)
  cases first : cones.find? target with
  | none => simpa [first] using entries
  | some given =>
      obtain ⟨last, found⟩ := Option.isSome_iff_exists.mp (entries.mpr (by simp [first]))
      rw [found, ← cone_of_find? first, ← cone_of_find? found, cone]

end Cones

namespace Walker

theorem flows_gathered_iff (walker : Walker) (index : Nat) (target : Target) :
    Cones.Flows walker.reuses (.gathered walker.sightings) index target ↔
      index ∈ walker.cones.cone target := by
  rw [mem_cones_iff]
  have joined : ∀ sighting ∈ walker.sightings, ∀ reuse ∈ sighting.reuses,
      reuse ∈ walker.reuses := by
    intro sighting member reuse given
    rw [reuses, List.mem_eraseDups, List.mem_flatMap]
    exact ⟨sighting, member, given⟩
  constructor
  · intro flows
    induction flows with
    | start present => exact Cones.flows_of_mem_gathered joined present
    | pass member _ ih => exact .pass member ih
  · intro flows
    exact flows.mono fun _ => Cones.mem_gathered_of_mem_ofSightings

/-- The cones gathered during the walks and those gathered afterwards have the same entries once
they are closed, whatever sequences the reuses are taken in. -/
theorem find?_closeFrom_gathered (walker : Walker) {order : Nat → List Reuse}
    (same : ∀ round reuse, reuse ∈ order round ↔ reuse ∈ walker.reuses) :
    ∃ closed,
      (Cones.gathered walker.sightings).closeFrom order 0 (walker.reuses.length + 1) =
        some closed ∧
      ∀ target, closed.find? target = walker.cones.find? target := by
  obtain ⟨closed, ended⟩ := Cones.exists_closeFrom_length same (.gathered walker.sightings)
  refine ⟨closed, ended, walker.proper_cones.find?_eq ?_ ?_⟩
  · exact (Cones.proper_gathered walker.sightings).closeFrom ended
  · intro target index
    rw [Cones.mem_closeFrom_iff same ended, walker.flows_gathered_iff]

end Walker

end GateLevel
