import Mathlib
import MarkerLattice.Proofs.Binary32.HalfUp
import MarkerLattice.Proofs.Lattice.Flood
import MarkerLattice.Proofs.Pass.Heights

/-! Two whole numbers for one height. Levels round it halves up and the check of heights
cuts it off toward zero, so they differ in the upper half of each cell, and below zero in the
lower half. -/
namespace MarkerLattice

/-- The marker that sets the ground level of a cell. -/
structure Scene.Founds (s : Scene) (c : Coord) (m : Marker) : Prop where
  first : (s.markers ⟨c, .ground⟩).head? = some m
  finite : m.location.z.isFinite = true

namespace Scene.Founds

variable {s : Scene} {c : Coord} {m : Marker}

theorem mem (h : s.Founds c m) : m ∈ s.markers ⟨c, .ground⟩ := List.mem_of_head? h.first

theorem slot?_levels (h : s.Founds c m) (mode : EdgeMode) :
    (s.levels mode).slot? ⟨c, .ground⟩ = some (Level.ofHeight s.cellSize.z m.location.z) := by
  have seed : (c, Level.ofHeight s.cellSize.z m.location.z) ∈ Level.seeds s :=
    (Level.mem_seeds s _ _).mpr ⟨contains_of_mem_markers h.mem, m, h.first, rfl⟩
  have hs := Level.sown_seeds s
  exact slot?_levels_ground mode (hs.inside _ seed) (hs.decides_self seed)

end Scene.Founds

theorem Level.ofHeight_of_one_le {cellHeight : Binary32} (h : Binary32.one.le cellHeight = true)
    (z : Binary32) : ofHeight cellHeight z = (z / cellHeight).roundHalfUp := by
  rw [ofHeight, Binary32.upper_one h]

namespace PassRules

theorem markerLevel_of_one_le {cellHeight : Binary32} (h : Binary32.one.le cellHeight = true)
    (m : Marker) : markerLevel cellHeight m = (m.location.z / cellHeight).toInt := by
  rw [markerLevel, if_pos (Binary32.zero_lt_of_one_le h)]

/-- A tracked marker sets the ground level of a cell that some rule stands on. -/
structure Grounds (rules : PassRules) (b : Board) (p : Placement) (c : Coord) (m : Marker) :
    Prop where
  founds : b.scene.Founds c m
  tracked : m.name ∈ rules.sameHeight
  placed : ∃ r ∈ p.orientation.rules, p.slot r = ⟨c, .ground⟩

variable {rules : PassRules} {b : Board} {p : Placement} {c c' : Coord} {m m' : Marker}

theorem Grounds.mem_trackedLevels (h : rules.Grounds b p c m) :
    (m.name, markerLevel rules.cellHeight m) ∈ rules.trackedLevels b p := by
  obtain ⟨r, hr, slot⟩ := h.placed
  rw [Placement.slot, Slot.mk.injEq] at slot
  apply (rules.mem_trackedLevels b p).mpr
  refine ⟨h.tracked, r, hr, ?_, m, ?_, rfl, rfl⟩
  · rw [slot.1]
    exact Scene.contains_of_mem_markers h.founds.mem
  · rw [slot.1, slot.2]
    exact h.founds.mem

theorem Grounds.markerLevel_eq (h : rules.Grounds b p c m) (h' : rules.Grounds b p c' m')
    (agree : rules.heightsAgree b p = true) (name : m.name = m'.name) :
    markerLevel rules.cellHeight m = markerLevel rules.cellHeight m' :=
  (rules.heightsAgree_iff b p).mp agree _ h.mem_trackedLevels _ h'.mem_trackedLevels name

/-- The level of a founded cell and the level that the check of heights goes by are the same
quotient, made whole in two ways: they are one apart at most, and equal just for quotients
near the whole number toward zero. Cells with such quotients are on one level if tracked
markers of one name in them pass the check. -/
theorem levels_markerLevel {s : Scene} (size : Binary32.one.le s.cellSize.z = true)
    (mode : EdgeMode) :
    (∀ c m, s.Founds c m → ∃ q, m.location.z / s.cellSize.z = q ∧ q.isFinite = true ∧
      (s.levels mode).slot? ⟨c, .ground⟩ = some q.roundHalfUp ∧
      markerLevel s.cellSize.z m = q.toInt ∧
      (q.roundHalfUp - q.toInt).natAbs ≤ 1 ∧ (q.roundHalfUp = q.toInt ↔ q.IsNearWhole)) ∧
    ∀ (rules : PassRules) (b : Board) (p : Placement), b.scene = s →
      rules.cellHeight = s.cellSize.z → rules.heightsAgree b p = true →
      ∀ c c' m m', rules.Grounds b p c m → rules.Grounds b p c' m' → m.name = m'.name →
        (m.location.z / s.cellSize.z).IsNearWhole → (m'.location.z / s.cellSize.z).IsNearWhole →
        (s.levels mode).slot? ⟨c, .ground⟩ = (s.levels mode).slot? ⟨c', .ground⟩ := by
  have level {c : Coord} {m : Marker} (h : s.Founds c m) : (s.levels mode).slot? ⟨c, .ground⟩ =
      some (m.location.z / s.cellSize.z).roundHalfUp := by
    rw [h.slot?_levels, Level.ofHeight_of_one_le size]
  have quotient {c : Coord} {m : Marker} (h : s.Founds c m) :
      (m.location.z / s.cellSize.z).isFinite = true := Binary32.isFinite_div h.finite size
  refine ⟨fun c m h => ⟨_, rfl, quotient h, level h, markerLevel_of_one_le size m,
    Binary32.natAbs_roundHalfUp_sub_toInt (quotient h),
    Binary32.roundHalfUp_eq_toInt_iff (quotient h)⟩, ?_⟩
  rintro rules b p rfl height agree c c' m m' ground ground' name near near'
  have same := ground.markerLevel_eq ground' agree name
  rw [height, markerLevel_of_one_le size, markerLevel_of_one_le size] at same
  rw [level ground.founds, level ground'.founds,
    (Binary32.roundHalfUp_eq_toInt_iff (quotient ground.founds)).mpr near,
    (Binary32.roundHalfUp_eq_toInt_iff (quotient ground'.founds)).mpr near', same]

def slopingTile (x z : Binary32) : Marker := ⟨0, "Floor", .ofPosition ⟨x, .half, z⟩⟩

def slopingFloor : Board :=
  let scene := Scene.ofMarkers ⟨.one, .one, .one⟩ [slopingTile .half ⟨0x3ecccccd⟩,
    slopingTile ⟨0x3fc00000⟩ ⟨0x3f19999a⟩, slopingTile ⟨0x40200000⟩ ⟨0x3e800000⟩] 0
  ⟨scene, .none scene.window⟩

/-- The first two floors pass the check, since both count as level zero there, and have
different ground levels. The third one has the ground level of the first. -/
theorem levels_markerLevel_slopingFloor :
    levelFloors.heightsAgree slopingFloor (overFloors [bystander ⟨0, 0⟩, bystander ⟨1, 0⟩]) = true ∧
    (slopingFloor.scene.levels .legacy).slot? ⟨⟨0, 0⟩, .ground⟩ = some 0 ∧
    (slopingFloor.scene.levels .legacy).slot? ⟨⟨1, 0⟩, .ground⟩ = some 1 ∧
    (slopingFloor.scene.levels .legacy).slot? ⟨⟨0, 0⟩, .ground⟩ =
      (slopingFloor.scene.levels .legacy).slot? ⟨⟨2, 0⟩, .ground⟩ := by
  obtain ⟨first, second, third⟩ :
      slopingFloor.scene.Founds ⟨0, 0⟩ (slopingTile .half ⟨0x3ecccccd⟩) ∧
      slopingFloor.scene.Founds ⟨1, 0⟩ (slopingTile ⟨0x3fc00000⟩ ⟨0x3f19999a⟩) ∧
      slopingFloor.scene.Founds ⟨2, 0⟩ (slopingTile ⟨0x40200000⟩ ⟨0x3e800000⟩) := by
    refine ⟨⟨?_, ?_⟩, ⟨?_, ?_⟩, ?_, ?_⟩ <;> decide +kernel
  obtain ⟨level, same⟩ := levels_markerLevel (s := slopingFloor.scene) (by decide +kernel) .legacy
  obtain ⟨q, value, finite, low, -, -, near⟩ := level _ _ first
  obtain ⟨q', value', -, high, -⟩ := level _ _ second
  obtain ⟨q'', value'', -, -, -, -, near''⟩ := level _ _ third
  have whole : q.roundHalfUp = 0 ∧ q.toInt = 0 := by
    rw [← value]
    decide +kernel
  have whole' : q'.roundHalfUp = 1 := by
    rw [← value']
    decide +kernel
  have whole'' : q''.roundHalfUp = q''.toInt := by
    rw [← value'']
    decide +kernel
  refine ⟨by decide +kernel, whole.1 ▸ low, whole' ▸ high, ?_⟩
  apply same levelFloors slopingFloor (overFloors [bystander ⟨0, 0⟩, bystander ⟨2, 0⟩]) rfl rfl
    (by decide +kernel) _ _ _ _ ⟨first, by decide, _, List.mem_cons_self, rfl⟩
    ⟨third, by decide, bystander ⟨2, 0⟩, by decide +kernel, rfl⟩ rfl
  · rw [value]
    exact near.mp (whole.1.trans whole.2.symm)
  · rw [value'']
    exact near''.mp whole''

end PassRules

end MarkerLattice
