import MarkerLattice.Lattice.Scene

/-!
Levels: one whole number for each slot that tells its height in cells. Ground
levels come from the first ground marker of a cell and spread to the nearest
cells without one; edges and corners take the highest ground that they touch.
-/
namespace MarkerLattice

inductive EdgeMode where
  /-- From the level of the edge below the tile and the tile to the left. -/
  | legacy
  | corrected
deriving DecidableEq, Repr

def Binary32.roundHalfUp (x : Binary32) : Int := (x + .half).floor.toInt

namespace Level

abbrev Seed := Coord × Int

/-- The level of a height. Cells less than one unit high count as one unit. -/
def ofHeight (cellHeight z : Binary32) : Int :=
  (z / cellHeight.upper .one).roundHalfUp

def seeds (s : Scene) : List Seed :=
  s.window.coords.filterMap fun c =>
    (s.markers ⟨c, .ground⟩).head?.map fun m =>
      (c, ofHeight s.cellSize.z m.location.z)

/-- The neighbours of a cell in the order in which levels spread. -/
def neighbours (c : Coord) : List Coord :=
  [⟨c.x - 1, c.y⟩, ⟨c.x + 1, c.y⟩, ⟨c.x, c.y - 1⟩, ⟨c.x, c.y + 1⟩]

def vacant (cells : Cells (Option Int)) : Nat := cells.values.count none

/-- Gives a cell a level unless it has one or lies outside. The list collects
the cells that got one, the latest in front. -/
def claim (state : Cells (Option Int) × List Seed) (seed : Seed) :
    Cells (Option Int) × List Seed :=
  match state.1.get? seed.1 with
  | some none => (state.1.set seed.1 (some seed.2), seed :: state.2)
  | _ => state

def claims (generation : List Seed) : List Seed :=
  generation.flatMap fun seed => (neighbours seed.1).map fun c => (c, seed.2)

def spread (cells : Cells (Option Int)) (generation : List Seed) :
    Cells (Option Int) × List Seed :=
  let (cells, next) := (claims generation).foldl claim (cells, [])
  (cells, next.reverse)

theorem vacant_claim (state : Cells (Option Int) × List Seed) (seed : Seed) :
    vacant (claim state seed).1 + (claim state seed).2.length =
      vacant state.1 + state.2.length := by
  unfold claim
  split
  next h =>
    simp only [Cells.get?, Option.bind_eq_some_iff] at h
    obtain ⟨i, hi, h⟩ := h
    have lt : i < state.1.values.size := by
      by_cases lt : i < state.1.values.size
      · exact lt
      · simp [Array.getElem?_eq_none (Nat.le_of_not_lt lt)] at h
    have at_i : state.1.values[i] = none := by
      simpa [Array.getElem?_eq_getElem lt] using h
    have pos : 0 < state.1.values.count none := by
      rw [Array.count_pos_iff]
      exact at_i ▸ Array.getElem_mem lt
    simp only [vacant, Cells.set, Cells.modify, hi, List.length_cons]
    have : state.1.values.modify i (fun _ => some seed.2) =
        state.1.values.set i (some seed.2) lt := by
      apply Array.ext
      · simp
      · intro j h₁ h₂
        rw [Array.getElem_modify, Array.getElem_set]
    rw [this, Array.count_set, at_i]
    simp
    omega
  next => rfl

theorem vacant_foldl_claim (seeds : List Seed) (state : Cells (Option Int) × List Seed) :
    vacant (seeds.foldl claim state).1 + (seeds.foldl claim state).2.length =
      vacant state.1 + state.2.length := by
  induction seeds generalizing state with
  | nil => rfl
  | cons seed rest ih => rw [List.foldl_cons, ih, vacant_claim]

theorem vacant_spread (cells : Cells (Option Int)) (generation : List Seed) :
    vacant (spread cells generation).1 + (spread cells generation).2.length =
      vacant cells := by
  have h := vacant_foldl_claim (claims generation) (cells, [])
  simpa [spread] using h

theorem vacant_lt_of_spread {cells claimed : Cells (Option Int)} {seed : Seed}
    {generation next : List Seed}
    (h : spread cells generation = (claimed, seed :: next)) :
    vacant claimed < vacant cells := by
  have := vacant_spread cells generation
  rw [h] at this
  simp only [List.length_cons] at this
  omega

/-- Spreads levels generation by generation until no cell claims another. -/
def flood (cells : Cells (Option Int)) (generation : List Seed) : Cells (Option Int) :=
  match h : spread cells generation with
  | (settled, []) => settled
  | (claimed, seed :: next) =>
    have := vacant_lt_of_spread h
    flood claimed (seed :: next)
termination_by vacant cells

/-- The ground level of every cell; zero where no level reaches. -/
def ground (s : Scene) : Cells Int :=
  let start := seeds s
  let cells := start.foldl (fun cells seed => cells.set seed.1 (some seed.2))
    (Cells.fill s.window none)
  (flood cells start).map (·.getD 0)

def quadAt (ground : Cells Int) (mode : EdgeMode) (c : Coord) : Quad Int :=
  let own := (ground.get? c).getD 0
  let below := ground.get? (c + ⟨0, -1⟩)
  let left := ground.get? (c + ⟨-1, 0⟩)
  let diagonal := ground.get? (c + ⟨-1, -1⟩)
  let edgeX := match below with
    | some g => max own g
    | none => own
  let edgeY := match left, mode with
    | some g, .legacy => max edgeX g
    | some g, .corrected => max own g
    | none, _ => own
  let corner := match diagonal with
    | some g => max (max edgeX edgeY) g
    | none => max edgeX edgeY
  { ground := own, edgeX, edgeY, corner }

end Level

abbrev Levels := SlotGrid Int

def Scene.levels (s : Scene) (mode : EdgeMode) : Levels :=
  let ground := Level.ground s
  .ofFn s.window (Level.quadAt ground mode)

end MarkerLattice
