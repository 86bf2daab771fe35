import Mathlib
import MarkerLattice.Proofs.Lattice.Flood

/-! Edges and corners take the highest ground that they touch. Their levels are written
into the grid that the ground levels are read from; no step changes a ground level, so
each coordinate sees the ground as the flood left it. -/
namespace MarkerLattice.Level

section Window

theorem window_claim (state : Cells (Option Int) × List Seed) (seed : Seed) :
    (claim state seed).1.window = state.1.window := by
  unfold claim
  split
  · exact Cells.window_set _ _ _
  · rfl

theorem window_spread (cells : Cells (Option Int)) (generation : List Seed) :
    (spread cells generation).1.window = cells.window := by
  have all (seeds : List Seed) (state : Cells (Option Int) × List Seed) :
      (seeds.foldl claim state).1.window = state.1.window := by
    induction seeds generalizing state with
    | nil => rfl
    | cons seed rest ih => rw [List.foldl_cons, ih, window_claim]
  exact all (claims generation) (cells, [])

theorem window_flood (cells : Cells (Option Int)) (generation : List Seed) :
    (flood cells generation).window = cells.window := by
  fun_induction flood cells generation with
  | case1 cells generation settled h =>
    exact (congrArg (·.1.window) h).symm.trans (window_spread cells generation)
  | case2 cells generation claimed seed rest h _ ih =>
    exact ih.trans ((congrArg (·.1.window) h).symm.trans (window_spread cells generation))

@[simp] theorem window_ground (s : Scene) : (ground s).window = s.window :=
  (window_flood _ _).trans (window_sow (.fill s.window none) (seeds s))

theorem exists_get?_ground {s : Scene} {c : Coord} (inside : s.window.contains c = true) :
    ∃ own, (ground s).get? c = some own := by
  apply Cells.exists_get?
  rwa [window_ground]

end Window

/-- The ground levels that the slots of a coordinate touch. There is none outside the
window. -/
structure Surroundings where
  own : Int
  below : Option Int
  left : Option Int
  diagonal : Option Int
deriving DecidableEq

def surroundings? (ground : Cells Int) (c : Coord) : Option Surroundings :=
  (ground.get? c).map fun own =>
    { own
      below := ground.get? (c + ⟨0, -1⟩)
      left := ground.get? (c + ⟨-1, 0⟩)
      diagonal := ground.get? (c + ⟨-1, -1⟩) }

def highest (own : Int) (others : List (Option Int)) : Int :=
  others.reduceOption.foldl max own

section Highest

variable (own level : Int) (others : List (Option Int))

@[simp] theorem highest_nil : highest own [] = own := rfl

@[simp] theorem highest_none : highest own (none :: others) = highest own others := rfl

@[simp] theorem highest_some :
    highest own (some level :: others) = highest (max own level) others := rfl

end Highest

namespace Surroundings

variable (t : Surroundings)

/-- The level of the edge to the left in legacy mode. It takes the ground below as well, but
not on the left border of the window. -/
def legacyEdge : Int :=
  match t.left with
  | some left => highest t.own [t.below, left]
  | none => t.own

theorem le_legacyEdge : highest t.own [t.left] ≤ t.legacyEdge := by
  obtain ⟨own, below, left, diagonal⟩ := t
  cases left with
  | none => exact Int.le_refl own
  | some left =>
    cases below with
    | none => exact Int.le_refl (max own left)
    | some below =>
      simp only [legacyEdge, highest_some, highest_nil]
      omega

theorem legacyEdge_eq_iff : t.legacyEdge = highest t.own [t.left] ↔
    t.left = none ∨ t.below = none ∨ ∃ b ∈ t.below, b ≤ highest t.own [t.left] := by
  obtain ⟨own, below, left, diagonal⟩ := t
  cases left with
  | none => simp [legacyEdge]
  | some left =>
    cases below with
    | none => simp [legacyEdge]
    | some below =>
      simp only [legacyEdge, highest_some, highest_nil, reduceCtorEq, false_or, Option.mem_def,
        Option.some.injEq, exists_eq_left']
      omega

theorem below_eq_of_legacyEdge_ne (h : t.legacyEdge ≠ highest t.own [t.left]) :
    t.below = some t.legacyEdge := by
  obtain ⟨own, below, left, diagonal⟩ := t
  cases left with
  | none => exact absurd rfl h
  | some left =>
    cases below with
    | none => exact absurd rfl h
    | some below =>
      simp only [legacyEdge, highest_some, highest_nil, Option.some.injEq] at h ⊢
      omega

end Surroundings

section Coordinate

variable {ground : Cells Int} {c : Coord} {t : Surroundings}

theorem quadAt_of_surroundings (h : surroundings? ground c = some t) (mode : EdgeMode) :
    quadAt ground mode c =
      { ground := t.own
        edgeX := highest t.own [t.below]
        edgeY := match mode with
          | .legacy => t.legacyEdge
          | .corrected => highest t.own [t.left]
        corner := highest t.own [t.below, t.left, t.diagonal] } := by
  obtain ⟨own, inside, rfl⟩ := Option.map_eq_some_iff.mp h
  unfold quadAt Surroundings.legacyEdge
  simp only [inside, Option.getD_some]
  cases ground.get? (c + ⟨0, -1⟩) <;> cases ground.get? (c + ⟨-1, 0⟩) <;>
    cases ground.get? (c + ⟨-1, -1⟩) <;> cases mode <;>
    simp only [highest_none, highest_some, highest_nil, Quad.mk.injEq, true_and] <;> omega

end Coordinate

section Raise

variable (mode : EdgeMode)

def raise (levels : Levels) (c : Coord) : Levels :=
  Cells.modify levels c fun q =>
    { quadAt (Cells.map Quad.ground levels) mode c with ground := q.ground }

def unraised (ground : Cells Int) : Levels :=
  ground.map fun level => { ground := level, edgeX := 0, edgeY := 0, corner := 0 }

theorem map_ground_unraised (ground : Cells Int) :
    Cells.map Quad.ground (unraised ground) = ground := by
  apply Cells.ext_get?
  · rfl
  · intro c
    rw [unraised, Cells.get?_map, Cells.get?_map, Option.map_map]
    exact congrFun Option.map_id _

theorem map_ground_raise (levels : Levels) (c : Coord) :
    Cells.map Quad.ground (raise mode levels c) = Cells.map Quad.ground levels := by
  apply Cells.ext_get?
  · exact Cells.window_modify levels c _
  · intro d
    rw [raise, Cells.get?_map, Cells.get?_map, Cells.get?_modify]
    split
    · exact Option.map_map ..
    · rfl

theorem get?_raise (levels : Levels) (c d : Coord) :
    Cells.get? (raise mode levels c) d =
      if d = c then (Cells.get? levels d).map fun _ => quadAt (Cells.map Quad.ground levels) mode d
      else Cells.get? levels d := by
  rw [raise, Cells.get?_modify]
  split
  next same =>
    subst same
    cases h : Cells.get? levels d with
    | none => rfl
    | some q =>
      have own : (Cells.map Quad.ground levels).get? d = some q.ground := by
        rw [Cells.get?_map, h, Option.map_some]
      simp [quadAt, own]
  next => rfl

theorem map_ground_foldl_raise (levels : Levels) (cs : List Coord) :
    Cells.map Quad.ground (cs.foldl (raise mode) levels) = Cells.map Quad.ground levels := by
  induction cs generalizing levels with
  | nil => rfl
  | cons c rest ih => rw [List.foldl_cons, ih, map_ground_raise]

theorem window_foldl_raise (levels : Levels) (cs : List Coord) :
    Cells.window (cs.foldl (raise mode) levels) = Cells.window levels := by
  have ground := congrArg Cells.window (map_ground_foldl_raise mode levels cs)
  rwa [Cells.window_map, Cells.window_map] at ground

theorem get?_foldl_raise (levels : Levels) (cs : List Coord) (d : Coord) :
    Cells.get? (cs.foldl (raise mode) levels) d =
      if d ∈ cs then (Cells.get? levels d).map fun _ => quadAt (Cells.map Quad.ground levels) mode d
      else Cells.get? levels d := by
  induction cs generalizing levels with
  | nil => simp
  | cons c rest ih =>
    rw [List.foldl_cons, ih, map_ground_raise, get?_raise]
    by_cases later : d ∈ rest
    · by_cases now : d = c <;> simp [later, now, Function.comp_def]
    · simp [later]

end Raise

end MarkerLattice.Level

namespace MarkerLattice.Scene

open Level

/-- The levels are what the coordinates of the window leave when they are written one
after the other. -/
theorem levels_eq_foldl_raise (s : Scene) (mode : EdgeMode) :
    s.levels mode = s.window.coords.foldl (raise mode) (unraised (ground s)) := by
  apply Cells.ext_get?
  · rw [window_foldl_raise]
    exact (window_ground s).symm
  · intro c
    rw [levels, Cells.get?_ofFn, get?_foldl_raise, map_ground_unraised]
    simp only [Window.mem_coords]
    split
    next inside =>
      obtain ⟨own, hown⟩ := exists_get?_ground inside
      rw [unraised, Cells.get?_map, hown]
      rfl
    next outside =>
      rw [unraised, Cells.get?_map, Cells.get?_eq_none_of_not_contains]
      · rfl
      · simpa using outside

theorem map_ground_levels (s : Scene) (mode : EdgeMode) :
    Cells.map Quad.ground (s.levels mode) = ground s := by
  rw [levels_eq_foldl_raise, map_ground_foldl_raise, map_ground_unraised]

theorem get?_levels {s : Scene} {c : Coord} {t : Surroundings}
    (h : surroundings? (ground s) c = some t) (mode : EdgeMode) :
    Cells.get? (s.levels mode) c = some (quadAt (ground s) mode c) := by
  obtain ⟨own, inside, -⟩ := Option.map_eq_some_iff.mp h
  have inside := Cells.contains_of_get? inside
  rw [window_ground] at inside
  rw [levels, Cells.get?_ofFn, if_pos inside]

theorem exists_surroundings {s : Scene} {c : Coord} (inside : s.window.contains c = true) :
    ∃ t, surroundings? (ground s) c = some t := by
  obtain ⟨own, hown⟩ := exists_get?_ground inside
  exact ⟨_, Option.map_eq_some_iff.mpr ⟨own, hown, rfl⟩⟩

/-- Writing edges and corners keeps the ground. The edge below and the corner take the
highest ground that they touch in either mode. So does the edge to the left in corrected
mode; in legacy mode it is higher just where the ground below is, and then as high. -/
theorem levels_edges (s : Scene) :
    (∀ mode, s.levels mode = s.window.coords.foldl (raise mode) (unraised (ground s)) ∧
      (∀ n, Cells.map Quad.ground
        ((s.window.coords.take n).foldl (raise mode) (unraised (ground s))) = ground s) ∧
      Cells.map Quad.ground (s.levels mode) = ground s) ∧
    (∀ c, ((ground s).get? c).isSome = s.window.contains c) ∧
    ∀ c, s.window.contains c = true → ∃ t, surroundings? (ground s) c = some t ∧
      Cells.get? (s.levels .corrected) c = some
        { ground := t.own
          edgeX := highest t.own [t.below]
          edgeY := highest t.own [t.left]
          corner := highest t.own [t.below, t.left, t.diagonal] } ∧
      Cells.get? (s.levels .legacy) c = some
        { ground := t.own
          edgeX := highest t.own [t.below]
          edgeY := t.legacyEdge
          corner := highest t.own [t.below, t.left, t.diagonal] } ∧
      highest t.own [t.left] ≤ t.legacyEdge ∧
      (t.legacyEdge = highest t.own [t.left] ↔
        t.left = none ∨ t.below = none ∨ ∃ b ∈ t.below, b ≤ highest t.own [t.left]) ∧
      (t.legacyEdge ≠ highest t.own [t.left] → t.below = some t.legacyEdge) := by
  refine ⟨fun mode => ⟨s.levels_eq_foldl_raise mode, fun n => ?_, s.map_ground_levels mode⟩,
    fun c => ?_, fun c inside => ?_⟩
  · rw [map_ground_foldl_raise, map_ground_unraised]
  · rw [Cells.isSome_get?, window_ground]
  · obtain ⟨t, around⟩ := exists_surroundings inside
    refine ⟨t, around, ?_, ?_, t.le_legacyEdge, t.legacyEdge_eq_iff,
      t.below_eq_of_legacyEdge_ne⟩
    · rw [get?_levels around, quadAt_of_surroundings around]
    · rw [get?_levels around, quadAt_of_surroundings around]

def fourTiles : Scene :=
  let tile (x y z : Binary32) : Marker := ⟨0, "Ground", .ofPosition ⟨x, y, z⟩⟩
  let behind : Binary32 := ⟨0x3fc00000⟩
  .ofMarkers .one [tile .half .half .zero, tile behind .half ⟨0x40800000⟩,
    tile .half behind .one, tile behind behind .two] 0

theorem levels_edges_fourTiles :
    fourTiles.window.contains ⟨1, 1⟩ = true ∧
    Cells.get? (fourTiles.levels .corrected) ⟨1, 1⟩ = some ⟨2, 4, 2, 4⟩ ∧
    Cells.get? (fourTiles.levels .legacy) ⟨1, 1⟩ = some ⟨2, 4, 4, 4⟩ := by
  have inside : fourTiles.window.contains ⟨1, 1⟩ = true := by decide +kernel
  have tiles : surroundings? (ground fourTiles) ⟨1, 1⟩ = some ⟨2, some 4, some 1, some 0⟩ := by
    decide +kernel
  obtain ⟨t, around, corrected, legacy, -⟩ := (levels_edges fourTiles).2.2 ⟨1, 1⟩ inside
  obtain rfl := Option.some.inj (tiles.symm.trans around)
  exact ⟨inside, corrected, legacy⟩

end MarkerLattice.Scene
