import GateLevel.Graph.Walk
import GateLevel.Proofs.Graph.Traversal

/-! The paths to inputs that a walker meets, in their sequence. Of these the extremes are the first
of the longest and the first of the shortest. -/

namespace GateLevel

/-- The path is a best one in the list by its length, and the first such. It is empty if the list
is. -/
def FirstBest (better : Nat → Nat → Prop) (paths : List (List Token)) (path : List Token) : Prop :=
  (paths = [] ∧ path = []) ∨ ∃ earlier later, paths = earlier ++ path :: later ∧
    (∀ other ∈ earlier, better path.length other.length) ∧
    ∀ other ∈ later, ¬ better other.length path.length

namespace FirstBest

variable {better : Nat → Nat → Prop} {paths : List (List Token)} {best path : List Token}

theorem mem (first : FirstBest better paths best) (nonempty : paths ≠ []) : best ∈ paths := by
  rcases first with ⟨none, _⟩ | ⟨earlier, later, rfl, _⟩
  · exact absurd none nonempty
  · simp

theorem eq_nil (first : FirstBest better [] best) : best = [] := by
  rcases first with ⟨_, none⟩ | ⟨earlier, later, split, _⟩
  · exact none
  · simp at split

theorem eq_nil_iff (first : FirstBest better paths best) (proper : [] ∉ paths) :
    best = [] ↔ paths = [] := by
  constructor
  · rintro rfl
    by_contra nonempty
    exact proper (first.mem nonempty)
  · rintro rfl
    exact first.eq_nil

theorem not_better (strict : ∀ a b, better a b → ¬ better b a)
    (first : FirstBest better paths best) {other : List Token} (member : other ∈ paths) :
    ¬ better other.length best.length := by
  rcases first with ⟨rfl, _⟩ | ⟨earlier, later, rfl, before, after⟩
  · simp at member
  · rcases List.mem_append.mp member with early | here
    · exact strict _ _ (before other early)
    · rcases List.mem_cons.mp here with rfl | late
      · exact fun worse => strict _ _ worse worse
      · exact after other late

theorem keep (first : FirstBest better paths best) (nonempty : paths ≠ [])
    (worse : ¬ better path.length best.length) : FirstBest better (paths ++ [path]) best := by
  rcases first with ⟨none, _⟩ | ⟨earlier, later, rfl, before, after⟩
  · exact absurd none nonempty
  · refine Or.inr ⟨earlier, later ++ [path], by simp, before, ?_⟩
    intro other member
    rcases List.mem_append.mp member with late | last
    · exact after other late
    · rw [List.mem_singleton.mp last]
      exact worse

theorem replace (strict : ∀ a b, better a b → ¬ better b a)
    (extend : ∀ a b c, better a b → ¬ better c b → better a c)
    (first : FirstBest better paths best) (improves : better path.length best.length) :
    FirstBest better (paths ++ [path]) path :=
  Or.inr ⟨paths, [], rfl, fun _ member => extend _ _ _ improves (first.not_better strict member),
    by simp⟩

end FirstBest

namespace Extremes

structure Of (paths : List (List Token)) (extremes : Extremes) : Prop where
  longest : FirstBest (· > ·) paths extremes.longest
  shortest : FirstBest (· < ·) paths extremes.shortest

namespace Of

variable {paths : List (List Token)} {extremes : Extremes}

theorem eq_nil_iff (best : extremes.Of paths) (proper : [] ∉ paths) :
    extremes.longest = [] ∧ extremes.shortest = [] ↔ paths = [] := by
  rw [best.longest.eq_nil_iff proper, best.shortest.eq_nil_iff proper, and_self]

theorem mem (best : extremes.Of paths) (nonempty : paths ≠ []) :
    extremes.longest ∈ paths ∧ extremes.shortest ∈ paths :=
  ⟨best.longest.mem nonempty, best.shortest.mem nonempty⟩

theorem length_le (best : extremes.Of paths) {path : List Token} (member : path ∈ paths) :
    extremes.shortest.length ≤ path.length ∧ path.length ≤ extremes.longest.length := by
  have shorter := best.shortest.not_better (by omega) member
  have longer := best.longest.not_better (by omega) member
  omega

theorem length_eq {others : List (List Token)} {other : Extremes} (best : extremes.Of paths)
    (otherBest : other.Of others) (same : ∀ path, path ∈ others ↔ path ∈ paths) :
    other.shortest.length = extremes.shortest.length ∧
      other.longest.length = extremes.longest.length := by
  cases paths with
  | nil =>
      obtain rfl : others = [] := List.eq_nil_iff_forall_not_mem.mpr (by simp [same])
      rw [best.shortest.eq_nil, best.longest.eq_nil, otherBest.shortest.eq_nil,
        otherBest.longest.eq_nil]
      exact ⟨rfl, rfl⟩
  | cons path rest =>
      have nonempty : others ≠ [] := List.ne_nil_of_mem ((same path).mpr (List.mem_cons_self ..))
      obtain ⟨longest, shortest⟩ := best.mem (List.cons_ne_nil path rest)
      obtain ⟨otherLongest, otherShortest⟩ := otherBest.mem nonempty
      have above := best.length_le ((same _).mp otherShortest)
      have below := best.length_le ((same _).mp otherLongest)
      have otherAbove := otherBest.length_le ((same _).mpr shortest)
      have otherBelow := otherBest.length_le ((same _).mpr longest)
      omega

theorem record (best : extremes.Of paths) (proper : [] ∉ paths) {trail : List Token}
    (nonempty : trail ≠ []) : (extremes.record trail).Of (paths ++ [trail.reverse]) := by
  have positive := List.length_pos_iff.mpr nonempty
  constructor
  · simp only [Extremes.record]
    by_cases longer : extremes.longest.length < trail.length
    · rw [if_pos longer]
      exact best.longest.replace (by omega) (by omega) (by simpa using longer)
    · rw [if_neg longer]
      refine best.longest.keep ?_ (by simpa using longer)
      rintro none
      rw [(best.longest.eq_nil_iff proper).mpr none] at longer
      exact longer positive
  · simp only [Extremes.record, Bool.or_eq_true, List.isEmpty_iff, decide_eq_true_eq]
    by_cases none : extremes.shortest = []
    · rw [if_pos (Or.inl none)]
      rw [(best.shortest.eq_nil_iff proper).mp none]
      exact Or.inr ⟨[], [], rfl, by simp, by simp⟩
    · by_cases shorter : trail.length < extremes.shortest.length
      · rw [if_pos (Or.inr shorter)]
        exact best.shortest.replace (by omega) (by omega) (by simpa using shorter)
      · rw [if_neg (not_or.mpr ⟨none, shorter⟩)]
        refine best.shortest.keep ?_ (by simpa using shorter)
        exact fun empty => none ((best.shortest.eq_nil_iff proper).mpr empty)

end Of

end Extremes

namespace Sighting

def paths : List Sighting → List (List Token)
  | [] => []
  | input _ trail _ :: rest => paths rest ++ [trail.reverse]
  | reuse _ _ :: rest => paths rest

theorem mem_paths_iff (sightings : List Sighting) (path : List Token) :
    path ∈ paths sightings ↔
      ∃ index trail under, .input index trail under ∈ sightings ∧ trail.reverse = path := by
  induction sightings with
  | nil => simp [paths]
  | cons sighting rest ih =>
      cases sighting with
      | input index trail under =>
          rw [paths, List.mem_append, ih, List.mem_singleton]
          simp only [List.mem_cons, input.injEq]
          constructor
          · rintro (⟨other, later, above, member, same⟩ | rfl)
            · exact ⟨other, later, above, Or.inr member, same⟩
            · exact ⟨index, trail, under, Or.inl ⟨rfl, rfl, rfl⟩, rfl⟩
          · rintro ⟨other, later, above, ⟨rfl, rfl, rfl⟩ | member, same⟩
            · exact Or.inr same.symm
            · exact Or.inl ⟨other, later, above, member, same⟩
      | reuse index under => simp [paths, ih]

theorem extremes_of_paths {sightings : List Sighting} (proper : [] ∉ paths sightings) :
    (Extremes.ofSightings sightings).Of (paths sightings) := by
  induction sightings with
  | nil => exact ⟨Or.inl ⟨rfl, rfl⟩, Or.inl ⟨rfl, rfl⟩⟩
  | cons sighting rest ih =>
      cases sighting with
      | input index trail under =>
          simp only [paths, List.mem_append, List.mem_singleton, not_or] at proper
          exact (ih proper.1).record proper.1 fun none => proper.2 (by simp [none])
      | reuse index under => exact ih proper

end Sighting

namespace Walker

def paths (walker : Walker) : List (List Token) := Sighting.paths walker.sightings

@[simp] theorem paths_pushTarget (walker : Walker) (target : Target) :
    (walker.pushTarget target).paths = walker.paths := rfl

@[simp] theorem paths_popTarget (walker : Walker) : walker.popTarget.paths = walker.paths := rfl

@[simp] theorem paths_meet_gate (walker : Walker) (gate : Gate) :
    (walker.meet (.gate gate)).paths = walker.paths := rfl

theorem paths_meet_input (walker : Walker) (index : Nat) :
    (walker.meet (.signal (.input index))).paths =
      walker.paths ++ [walker.trail.reverse ++ [.signal (.input index)]] := by
  simp [paths, meet, sightInput, sight, pushToken, Sighting.paths]

theorem mem_paths_meet_iff (walker : Walker) (token : Token) (path : List Token) :
    path ∈ (walker.meet token).paths ↔ path ∈ walker.paths ∨
      (∃ index, token = .signal (.input index)) ∧ path = walker.trail.reverse ++ [token] := by
  rcases token with gate | index | index | index
  · simp [meet, pushToken, paths]
  · rw [paths_meet_input]
    simp
  · simp [meet, pushToken, paths]
  · simp [meet, pushToken, paths, sightReuse, sight, Sighting.paths]

theorem Frame.mem_paths {before after : Walker} (frame : Frame before after) {path : List Token}
    (member : path ∈ before.paths) : path ∈ after.paths := by
  rw [paths, Sighting.mem_paths_iff] at member ⊢
  obtain ⟨index, trail, under, sighted, same⟩ := member
  exact ⟨index, trail, under, frame.mem_sightings sighted, same⟩

theorem extremes_of_paths {walker : Walker} (proper : [] ∉ walker.paths) :
    walker.extremes.Of walker.paths :=
  Sighting.extremes_of_paths proper

end Walker

end GateLevel
