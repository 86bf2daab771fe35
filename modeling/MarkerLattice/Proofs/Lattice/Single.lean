import Mathlib
import MarkerLattice.Proofs.Binary32.HalfUp
import MarkerLattice.Proofs.Lattice.Edges
import MarkerLattice.Proofs.Lattice.Listing
import MarkerLattice.Proofs.Lattice.RoundTrip

/-! A level and back. The height of a level is a multiple of the cell height, rounded; the
level of a height divides by the cell height, but by one unit where cells are lower. Around a
single tile all slots get its level. -/
namespace MarkerLattice

/-- The numbers of a ground slot on a level are in range, and neither the location nor the
cells are too small. -/
structure Slot.Stands (cell : Vec3 Binary32) (c : Coord) (level : Int) : Prop where
  x : Admits cell.x c.x .half
  y : Admits cell.y c.y .half
  positive : Binary32.zero.lt cell.z = true
  normal : cell.z.IsNormal
  near : level.natAbs ≤ 2 ^ 20
  product : (Binary32.ofInt level * cell.z).IsNormal ∨
    (Binary32.ofInt level * cell.z).magnitudeBits = 0

namespace Slot.Stands

variable {cell : Vec3 Binary32} {c : Coord} {level : Int}

theorem admits (h : Stands cell c level) : Admits cell.z level .zero where
  positive := h.positive
  normal := h.normal
  near := h.near
  product := by
    have near := h.near
    rw [Binary32.ofInt_add_zero (by omega)]
    exact h.product

theorem isFinite (h : Stands cell c level) :
    (Binary32.ofInt level * cell.z).isFinite = true := by
  have near := h.near
  have finite := isFinite_product h.admits
  rwa [Binary32.ofInt_add_zero (by omega)] at finite

theorem recovers (h : Stands cell c level) :
    (Binary32.ofInt level * cell.z / cell.z).Recovers level := by
  have near := h.near
  have recovers := recovers_returned h.admits denotes_zero (k := 0) (by decide)
  rw [returned, Binary32.ofInt_add_zero (by omega)] at recovers
  simpa using recovers

theorem toRat_pos (h : Stands cell c level) : 0 < cell.z.toRat := Slot.toRat_pos h.admits

theorem rounds (h : Stands cell c level) (nonzero : level ≠ 0) :
    (Binary32.ofInt level * cell.z).Rounds (level * cell.z.toRat) := by
  have near := h.near
  have denotes := Binary32.denotes_ofInt (n := level) (by omega)
  have normal := isNormal_product h.admits denotes_zero (k := 0) (by decide) (by omega)
  rw [Binary32.ofInt_add_zero (by omega)] at normal
  have rounds := Binary32.rounds_mul denotes.finite h.normal.finite normal
  rwa [denotes.toRat] at rounds

theorem ratio_le (h : Stands cell c level) (nonzero : level ≠ 0) :
    |(Binary32.ofInt level * cell.z).toRat / cell.z.toRat| ≤ 2 ^ 21 := by
  have near := h.near
  have error := ratio_error h.toRat_pos (h.rounds nonzero)
  have size := abs_intCast_le near
  push_cast at size
  have apart := abs_sub_abs_le_abs_sub
    ((Binary32.ofInt level * cell.z).toRat / cell.z.toRat) level
  linarith

theorem eq_of_height_eq (h : Stands cell c level) (nonzero : level ≠ 0) {other : Int}
    (short : other.natAbs < 2 ^ 24)
    (same : Binary32.ofInt other * cell.z = Binary32.ofInt level * cell.z) : other = level := by
  have first := ratio_error h.toRat_pos (h.rounds nonzero)
  have reach := h.ratio_le nonzero
  have denotes := Binary32.denotes_ofInt short
  have rounds := Binary32.rounds_mul denotes.finite h.normal.finite
    (same.symm ▸ (h.rounds nonzero).normal)
  rw [denotes.toRat, same] at rounds
  have second := ratio_error h.toRat_pos rounds
  generalize (Binary32.ofInt level * cell.z).toRat / cell.z.toRat = u at *
  have apart : |((other - level : ℤ) : ℚ)| < 1 := by
    push_cast
    have between := abs_sub_le (other : ℚ) u level
    rw [abs_sub_comm] at second
    linarith
  rw [← Int.cast_abs] at apart
  have apart : |other - level| < 1 := by exact_mod_cast apart
  have := Int.abs_lt_one_iff.mp apart
  omega

end Slot.Stands

namespace Binary32

theorem Recovers.roundHalfUp {x : Binary32} {n : ℤ} (h : x.Recovers n)
    (near : n.natAbs ≤ 2 ^ 20) : x.roundHalfUp = n := by
  have regular : x ≠ belowHalf := by
    rintro rfl
    have coarse := h.coarse
    rw [toRat_belowHalf] at coarse
    norm_num at coarse
  apply (roundHalfUp_eq_iff h.finite (by omega)).mpr
  rw [if_neg regular]
  have size := abs_intCast_le near
  push_cast at size
  obtain ⟨low, high⟩ := abs_le.mp h.close
  constructor <;> linarith

end Binary32

namespace Level

variable {cell : Vec3 Binary32} {c : Coord} {level : Int}

/-- The level comes back in cells of one unit or more. In lower cells the height is counted in
units, and the level comes back if it happens to be the number of units. -/
theorem ofHeight_eq_iff (h : Slot.Stands cell c level) :
    ofHeight cell.z (.ofInt level * cell.z) = level ↔ Binary32.one.le cell.z = true ∨
      if Binary32.ofInt level * cell.z = Binary32.belowHalf then level = 1
      else -(1 / 2) ≤ (Binary32.ofInt level * cell.z).toRat - level ∧
        (Binary32.ofInt level * cell.z).toRat - level < 1 / 2 := by
  have near := h.near
  cases size : Binary32.one.le cell.z with
  | true =>
    rw [ofHeight, Binary32.upper_one size, h.recovers.roundHalfUp near]
    simp
  | false =>
    have number := Binary32.isNaN_of_isFinite h.normal.finite
    rw [ofHeight, Binary32.upper_one_of_lt number size, Binary32.div_one_eq h.isFinite,
      Binary32.roundHalfUp_eq_iff h.isFinite (by omega)]
    simp

theorem ofHeight_zero (h : Slot.Stands cell c 0) : ofHeight cell.z (.ofInt 0 * cell.z) = 0 := by
  have fits : Binary32.Representable |((0 : ℤ) : ℚ) * cell.z.toRat| := by
    simpa using Binary32.representable_intCast (n := 0) (by decide)
  have denotes := (Binary32.denotes_ofInt (n := 0) (by decide)).mul ⟨h.normal.finite, rfl⟩ fits
  rw [Int.cast_zero, zero_mul] at denotes
  have regular : Binary32.ofInt 0 * cell.z ≠ Binary32.belowHalf := by
    intro same
    have value := denotes.toRat
    rw [same, Binary32.toRat_belowHalf] at value
    norm_num at value
  apply (ofHeight_eq_iff h).mpr
  rw [if_neg regular, denotes.toRat]
  norm_num

theorem height_ofHeight_eq_iff (h : Slot.Stands cell c level) :
    .ofInt (ofHeight cell.z (.ofInt level * cell.z)) * cell.z = Binary32.ofInt level * cell.z ↔
      ofHeight cell.z (.ofInt level * cell.z) = level := by
  refine ⟨fun same => ?_, fun eq => by rw [eq]⟩
  by_cases nonzero : level = 0
  · subst nonzero
    exact ofHeight_zero h
  cases size : Binary32.one.le cell.z with
  | true => exact (ofHeight_eq_iff h).mpr (.inl size)
  | false =>
    have number := Binary32.isNaN_of_isFinite h.normal.finite
    apply h.eq_of_height_eq nonzero _ same
    rw [ofHeight, Binary32.upper_one_of_lt number size, Binary32.div_one_eq h.isFinite]
    have unit : cell.z.toRat < 1 := by
      have below := mt (Binary32.le_iff_toRat Binary32.denotes_one.finite h.normal.finite).mpr
        (by simp [size])
      rwa [Binary32.denotes_one.toRat, not_le] at below
    have reach := h.ratio_le nonzero
    rw [abs_div, abs_of_pos h.toRat_pos, div_le_iff₀ h.toRat_pos] at reach
    have bound : |(Binary32.ofInt level * cell.z).toRat| ≤ (2 ^ 21 : ℕ) := by
      push_cast
      linarith
    have short := Binary32.natAbs_roundHalfUp_le h.isFinite bound (by decide) (by decide)
    omega

theorem quadAt_of_seeds_level {s : Scene} (hne : seeds s ≠ [])
    (same : ∀ seed ∈ seeds s, seed.2 = level) (mode : EdgeMode)
    (inside : s.window.contains c = true) : quadAt (ground s) mode c = .replicate level := by
  have within {d : Coord} (hd : s.window.contains d = true) :
      (ground s).get? d = some level := by
    obtain ⟨seed, decides⟩ := (sown_seeds s).exists_decides hne d
    rw [get?_ground hd decides, same seed decides.mem]
  apply quadAt_of_flat
  · rw [within inside, Option.getD_some]
  · intro d
    cases hd : s.window.contains d with
    | true => exact .inl (within hd)
    | false =>
      right
      apply Cells.get?_eq_none_of_not_contains
      rwa [window_ground]

end Level

namespace Scene

variable {cell : Vec3 Binary32} {c : Coord} {level margin : Int} {m : Marker}

theorem size_windowOf_singleton (cell : Vec2 Binary32) (p : Location) (margin : Int) :
    (windowOf cell [p] margin).size = .one + .splat (2 * margin) := by
  have single : bounds [p] = (p.flat, p.flat) := by
    simp [bounds, Binary32.lower, Binary32.upper, Vec3.flat]
  rw [windowOf, single]
  ext <;> simp

theorem margin_nonneg {d : Coord}
    (inside : (ofMarkers cell [m] margin).window.contains d = true) : 0 ≤ margin := by
  rw [window_ofMarkers, Window.contains_iff, List.map_singleton, size_windowOf_singleton] at inside
  simp only [Coord.one, Coord.splat, Coord.add_x, Coord.add_y] at inside
  omega

section Tile

variable (h : Slot.Stands cell c level)
  (sets : m.location = Slot.location cell ⟨c, .ground⟩ level)

include h sets

theorem slot_single : Slot.ofLocation cell.flat m.location = ⟨c, .ground⟩ := by
  rw [sets]
  exact (Slot.ofLocation_location_iff level h.x h.y).mpr (.inl rfl)

theorem markers_single {slot : Slot}
    (inside : (ofMarkers cell [m] margin).window.contains slot.coord = true) :
    (ofMarkers cell [m] margin).markers slot = if slot = ⟨c, .ground⟩ then [m] else [] := by
  rw [markers_ofMarkers _ _ _ inside, map_fst_entriesAt, List.filter_singleton,
    slot_single h sets]
  by_cases own : slot = ⟨c, .ground⟩
  · simp [own, MarkerList.add]
  · simp [own, Ne.symm own]

theorem contains_single (wide : 0 ≤ margin) :
    (ofMarkers cell [m] margin).window.contains c = true := by
  have finite : ∀ p ∈ [m.location], p.flat.IsFinite := by
    intro p hp
    rw [List.mem_singleton.mp hp, sets]
    exact ⟨Slot.isFinite_product h.x, Slot.isFinite_product h.y⟩
  have numberX : cell.flat.x.isNaN = false := Binary32.isNaN_of_isFinite h.x.normal.finite
  have numberY : cell.flat.y.isNaN = false := Binary32.isNaN_of_isFinite h.y.normal.finite
  have inside := contains_windowOf numberX numberY finite wide (List.mem_singleton_self _)
  rw [slot_single h sets] at inside
  rwa [window_ofMarkers]

theorem slot?_levels_single (mode : EdgeMode) {slot : Slot}
    (inside : (ofMarkers cell [m] margin).window.contains slot.coord = true) :
    ((ofMarkers cell [m] margin).levels mode).slot? slot =
      some (Level.ofHeight cell.z m.location.z) := by
  have origin := contains_single h sets (margin_nonneg inside)
  have own : (ofMarkers cell [m] margin).markers ⟨c, .ground⟩ = [m] := by
    rw [markers_single h sets origin, if_pos rfl]
  have seed : (c, Level.ofHeight cell.z m.location.z) ∈ Level.seeds (ofMarkers cell [m] margin) :=
    (Level.mem_seeds _ _ _).mpr ⟨origin, m, by rw [own]; rfl, rfl⟩
  have only : ∀ seed ∈ Level.seeds (ofMarkers cell [m] margin),
      seed.2 = Level.ofHeight cell.z m.location.z := by
    rintro ⟨d, other⟩ hd
    obtain ⟨within, n, first, rfl⟩ := (Level.mem_seeds _ _ _).mp hd
    rw [markers_single h sets within] at first
    split at first
    · obtain rfl : m = n := by simpa using first
      rfl
    · cases first
  rw [slot?_levels, if_pos inside,
    Level.quadAt_of_seeds_level (List.ne_nil_of_mem seed) only mode inside]
  cases slot.part <;> rfl

end Tile

theorem emittedPose_z {levels : Levels} {stance : Stance} {e : Emission} (s : Scene)
    (fresh : (s.markers stance.slot).firstNamed? e.heightFrom = none) {inferred : Int}
    (hl : levels.slot? stance.slot = some inferred) :
    (s.emittedPose levels stance e).position.z = .ofInt inferred * s.cellSize.z := by
  simp only [emittedPose, fresh, hl, locationOf, Slot.location, Option.getD_some]

/-- Around a single tile on a level, all slots are on the level of its height. That is the
level of the tile in cells of one unit or more; in lower cells it counts units, and is the
level of the tile just if that many units are nearest to the height. What is emitted on the
tile without a height to copy lands on it if the level is right, and elsewhere if not. -/
theorem levels_single (h : Slot.Stands cell c level)
    (sets : m.location = Slot.location cell ⟨c, .ground⟩ level) (margin : Int) (mode : EdgeMode) :
    ∃ inferred : Int,
      (∀ slot : Slot, (ofMarkers cell [m] margin).window.contains slot.coord = true →
        ((ofMarkers cell [m] margin).levels mode).slot? slot = some inferred) ∧
      (0 ≤ margin → (ofMarkers cell [m] margin).window.contains c = true) ∧
      (inferred = level ↔ Binary32.one.le cell.z = true ∨
        if m.location.z = Binary32.belowHalf then level = 1
        else -(1 / 2) ≤ m.location.z.toRat - level ∧ m.location.z.toRat - level < 1 / 2) ∧
      ∀ (s : Scene) (stance : Stance) (e : Emission), s.cellSize = cell →
        stance.slot = ⟨c, .ground⟩ → (s.markers stance.slot).firstNamed? e.heightFrom = none →
        0 ≤ margin →
        ((s.emittedPose ((ofMarkers cell [m] margin).levels mode) stance e).position.z =
          m.location.z ↔ inferred = level) := by
  have z : m.location.z = .ofInt level * cell.z := by rw [sets, Slot.location]
  refine ⟨Level.ofHeight cell.z m.location.z, fun slot => slot?_levels_single h sets mode,
    contains_single h sets, ?_, ?_⟩
  · rw [z]
    exact Level.ofHeight_eq_iff h
  · intro s stance e size stand fresh wide
    have inside : (ofMarkers cell [m] margin).window.contains stance.slot.coord = true := by
      rw [stand]
      exact contains_single h sets wide
    rw [emittedPose_z s fresh (slot?_levels_single h sets mode inside), size, z]
    exact Level.height_ofHeight_eq_iff h

def lowCell : Vec3 Binary32 := ⟨.one, .one, .half⟩

def tileOnTwo (cell : Vec3 Binary32) : Marker :=
  ⟨0, "Ground", .ofPosition (Slot.location cell ⟨.zero, .ground⟩ 2)⟩

theorem stands_tileOnTwo {cellHeight : Binary32} (positive : Binary32.zero.lt cellHeight = true)
    (normal : cellHeight.IsNormal) (product : (.ofInt 2 * cellHeight : Binary32).IsNormal) :
    Slot.Stands ⟨.one, .one, cellHeight⟩ .zero 2 := by
  have axis : Slot.Admits .one 0 .half :=
    ⟨by decide, ⟨by decide, by decide⟩, by decide, .inl ⟨by decide +kernel, by decide +kernel⟩⟩
  exact ⟨axis, axis, positive, normal, by decide, .inl product⟩

/-- The tile in low cells is one unit high, so it is read on the first level, and what is
emitted on it lands half a unit below. In cells of one unit it is read on the second level. -/
theorem levels_single_tileOnTwo :
    ((ofMarkers lowCell [tileOnTwo lowCell] 1).levels .legacy).slot? ⟨⟨1, -1⟩, .corner⟩ = some 1 ∧
    ((ofMarkers lowCell [tileOnTwo lowCell] 1).emittedPose
      ((ofMarkers lowCell [tileOnTwo lowCell] 1).levels .legacy) .initial
      ⟨"Torch", [], []⟩).position.z ≠ (tileOnTwo lowCell).location.z ∧
    ((ofMarkers .one [tileOnTwo .one] 1).levels .legacy).slot? ⟨⟨1, -1⟩, .corner⟩ = some 2 := by
  have low : Slot.Stands lowCell .zero 2 := stands_tileOnTwo (by decide) ⟨by decide, by decide⟩
    ⟨by decide +kernel, by decide +kernel⟩
  have full : Slot.Stands .one .zero 2 := stands_tileOnTwo (by decide) ⟨by decide, by decide⟩
    ⟨by decide +kernel, by decide +kernel⟩
  obtain ⟨inferred, slots, -, -, lands⟩ :=
    levels_single low (m := tileOnTwo lowCell) rfl 1 .legacy
  obtain ⟨inferred', slots', -, back', -⟩ :=
    levels_single full (m := tileOnTwo .one) rfl 1 .legacy
  have read : ((ofMarkers lowCell [tileOnTwo lowCell] 1).levels .legacy).slot?
      ⟨⟨1, -1⟩, .corner⟩ = some 1 := by
    decide +kernel
  have first : 1 = inferred :=
    Option.some.inj (read.symm.trans (slots ⟨⟨1, -1⟩, .corner⟩ (by decide +kernel)))
  have second : inferred' = 2 := back'.mpr (.inl (by decide))
  refine ⟨read, ?_, ?_⟩
  · have fresh (l : MarkerList) : l.firstNamed? [] = none := by simp [MarkerList.firstNamed?]
    have land := lands (ofMarkers lowCell [tileOnTwo lowCell] 1) .initial ⟨"Torch", [], []⟩ rfl rfl
      (fresh _) (by decide)
    rw [Ne, land]
    omega
  · have read' := slots' ⟨⟨1, -1⟩, .corner⟩ (by decide +kernel)
    rwa [second] at read'

end Scene

end MarkerLattice
