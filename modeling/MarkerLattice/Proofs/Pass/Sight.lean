import Mathlib
import MarkerLattice.Pass

/-! What a try sees of the board. Its outcome depends on the names and heights of the
markers under the rules and on the slots taken there, and on nothing else. -/
namespace MarkerLattice

def Scene.heights (s : Scene) (slot : Slot) : List (String × Binary32) :=
  (s.markers slot).map fun m => (m.name, m.location.z)

theorem Scene.contains_eq_heights (s : Scene) (slot : Slot) (name : String) :
    s.contains slot name = (s.heights slot).any fun e => e.1 = name := by
  rw [contains, MarkerList.hasName, heights, List.any_map]
  rfl

/-- What a try goes by under one rule. -/
structure Sight where
  inserts : Bool
  script : Script
  heights : List (String × Binary32)
  taken : Bool

def Placement.sights (p : Placement) (b : Board) : List Sight :=
  p.orientation.rules.map fun r =>
    ⟨r.inserts, r.script, b.scene.heights (p.slot r), b.occupancy.isOccupied (p.slot r)⟩

namespace PassRules

variable (rules : PassRules) {b b' : Board} {p p' : Placement}

theorem overlapsAt_eq_sights (b : Board) (p : Placement) :
    overlapsAt b p = (p.sights b).any fun v => v.inserts && v.taken := by
  rw [overlapsAt, Placement.sights, List.any_map]
  rfl

theorem conditionsHold_eq_sights (b : Board) (p : Placement) : conditionsHold b p =
    (p.sights b).all fun v =>
      v.script.selection.holds fun name => v.heights.any fun e => e.1 = name := by
  have present (r : PlacedRule) : b.scene.contains (p.slot r) =
      fun name => (b.scene.heights (p.slot r)).any fun e => e.1 = name :=
    funext fun name => b.scene.contains_eq_heights (p.slot r) name
  rw [conditionsHold, Placement.sights, List.all_map]
  simp only [present]
  rfl

theorem trackedLevels_eq_sights (b : Board) (p : Placement) : rules.trackedLevels b p =
    (p.sights b).flatMap fun v => (v.heights.filter fun e => e.1 ∈ rules.sameHeight).map fun e =>
      (e.1, (e.2 / if Binary32.zero.lt rules.cellHeight then rules.cellHeight else .one).toInt) := by
  simp only [trackedLevels, Placement.sights, List.flatMap_map, Scene.heights, List.filter_map,
    List.map_map]
  rfl

/-- Placements that see the same have the same outcome. -/
theorem outcome_congr (h : p'.sights b' = p.sights b) (levels : Levels) :
    ({ rules with levels }.tryPlacement b' p').1 = (rules.tryPlacement b p).1 := by
  have overlaps : overlapsAt b' p' = overlapsAt b p := by
    rw [overlapsAt_eq_sights, overlapsAt_eq_sights, h]
  have heights : ({ rules with levels } : PassRules).heightsAgree b' p' =
      rules.heightsAgree b p := by
    simp only [heightsAgree, trackedLevels_eq_sights, h]
  have conditions : conditionsHold b' p' = conditionsHold b p := by
    rw [conditionsHold_eq_sights, conditionsHold_eq_sights, h]
  unfold tryPlacement
  rw [overlaps, heights, conditions]
  split
  · rfl
  · split
    · rfl
    · split <;> rfl

end PassRules

end MarkerLattice
