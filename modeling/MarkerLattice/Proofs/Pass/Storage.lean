import Mathlib
import MarkerLattice.Proofs.Lattice.Words
import MarkerLattice.Proofs.Pass.Slots

/-! How grids are stored. The list of the coordinates of a window, the test for them and
their numbers fit each other, so that a grid has one value for each coordinate and a write
reaches no other. All grids of a pass keep the window of the start, and no rule finds a
number beyond their values wherever it stands. -/
namespace MarkerLattice

/-- The coordinates of a window are listed once, row by row, and numbered as listed. -/
structure Window.Enumerated (w : Window) : Prop where
  once : ∀ c, w.coords.count c = if w.contains c then 1 else 0
  ordered : w.coords.Pairwise Coord.RowMajor
  numbered : ∀ c i, w.index? c = some i ↔ w.coords[i]? = some c

theorem Window.enumerated (w : Window) : w.Enumerated where
  once c := by
    have distinct : w.coords.Nodup := w.pairwise_coords.imp Coord.RowMajor.ne
    simp only [distinct.count, mem_coords]
  ordered := w.pairwise_coords
  numbered c i := (w.getElem?_coords c i).symm

namespace Cells

variable {α : Type}

structure Addressed (cells : Cells α) : Prop where
  size : cells.values.size = cells.coords.length
  inside : ∀ c i, cells.window.index? c = some i →
    ∃ h : i < cells.values.size, cells.get? c = some cells.values[i]
  outside : ∀ c, cells.window.contains c = false →
    cells.window.index? c = none ∧ cells.get? c = none
  written : ∀ c d f, (cells.modify c f).get? d =
    if d = c then (cells.get? d).map f else cells.get? d

theorem index?_lt_size (cells : Cells α) {c : Coord} {i : ℕ}
    (h : cells.window.index? c = some i) : i < cells.values.size := by
  rw [cells.size_values]
  exact Window.index?_lt_area h

theorem addressed (cells : Cells α) : cells.Addressed where
  size := cells.size_values.trans cells.window.length_coords.symm
  inside c i h := by
    have lt := cells.index?_lt_size h
    exact ⟨lt, (get?_eq_of_index? h).trans (Array.getElem?_eq_getElem lt)⟩
  outside c h := ⟨(Window.index?_eq_none_iff _ _).mpr h, get?_eq_none_of_not_contains h⟩
  written c d f := cells.get?_modify c d f

end Cells

structure Board.Covers (b : Board) (levels : Levels) (w : Window) : Prop where
  scene : Cells.window b.scene.slots = w
  occupancy : Cells.window b.occupancy = w
  levels : Cells.window levels = w

namespace PassRules

variable {rules : PassRules} {b : Board} {w : Window}

theorem covers_foldl_runRule (h : b.Covers rules.levels w) (p : Placement)
    (rs : List PlacedRule) : (rs.foldl (rules.runRule p) b).Covers rules.levels w where
  scene := (rules.agreesOff_foldl_runRule p b rs).window.trans h.scene
  occupancy := (rules.window_occupancy_foldl_runRule p b rs).trans h.occupancy
  levels := h.levels

variable {σ : Type} [RandomStream σ]

theorem covers_attempt (h : b.Covers rules.levels w) (probability : Binary32) (p : Placement)
    (draw : Binary32) : (rules.attempt probability b p draw).after.Covers rules.levels w := by
  by_cases executed : (rules.attempt probability b p draw).Executed
  · rw [after_of_executed executed]
    exact covers_foldl_runRule h p _
  · rwa [after_of_not_executed executed]

theorem covers_boardAfter_take (h : b.Covers rules.levels w) (probability : Binary32)
    (ps : List Placement) (s : σ) (n : ℕ) :
    (boardAfter b ((rules.attempts probability ps b s).take n)).Covers rules.levels w := by
  induction ps generalizing b s n with
  | nil => simpa [attempts, boardAfter] using h
  | cons p rest ih =>
    cases n with
    | zero => exact h
    | succ n => exact ih (covers_attempt h probability p _) _ n

end PassRules

namespace Stage

theorem covers_ofPattern (pattern : Pattern) (settings : GridSettings) (rotate overlaps : Bool)
    (cellSize : Vec3 Binary32) (ms : List Marker) :
    (ofPattern pattern settings rotate overlaps cellSize ms).board.Covers
      (ofPattern pattern settings rotate overlaps cellSize ms).rules.levels
      (ofPattern pattern settings rotate overlaps cellSize ms).board.scene.window where
  scene := rfl
  occupancy := window_occupancy_ofPattern _ _ _ _ _ _
  levels := rfl

variable {σ : Type} [RandomStream σ]

theorem covers_attempts {stage : Stage} {w : Window}
    (h : stage.board.Covers stage.rules.levels w) (layer : Layer) (s : σ) (n : ℕ) :
    (PassRules.boardAfter stage.board ((stage.attempts layer s).take n)).Covers
      stage.rules.levels w :=
  PassRules.covers_boardAfter_take h _ _ _ n

/-- Every window lists each of its coordinates once, row by row, and numbers them in that
order. A grid has as many values, and reading and writing at a coordinate reach the value of
its number or nothing. Words of 32 bits come to the same if they can hold the area and the
corners. In a pass no number that a coordinate has lies beyond the values of any grid, after
whatever attempts and rules, and there is nothing at the other coordinates. -/
theorem cells_addressed :
    (∀ w : Window, w.Enumerated ∧
      ∀ (α : Type) (a : α), (Cells.fill w a).values = .replicate w.coords.length a) ∧
    (∀ (α : Type) (cells : Cells α), cells.Addressed) ∧
    (∀ w : WordWindow, w.Fits → w.coords.map Offset.toCoord = w.toWindow.coords ∧
      ∀ c : Offset, w.contains c = w.toWindow.contains c.toCoord ∧
        (w.index? c).map Int32.toInt = (w.toWindow.index? c.toCoord).map Nat.cast) ∧
    ∀ (pattern : Pattern) (settings : GridSettings) (rotate overlaps : Bool)
      (cellSize : Vec3 Binary32) (ms : List Marker) (layer : Layer) (s : σ) (n : ℕ)
      (p : Placement) (rs : List PlacedRule) (stage : Stage) (b : Board),
      stage = ofPattern pattern settings rotate overlaps cellSize ms →
      b = rs.foldl (stage.rules.runRule p)
        (PassRules.boardAfter stage.board ((stage.attempts layer s).take n)) →
      ∀ c : Coord,
        (∀ i, stage.board.scene.window.index? c = some i → i < b.scene.slots.values.size ∧
          i < b.occupancy.values.size ∧ i < stage.rules.levels.values.size) ∧
        (stage.board.scene.window.contains c = false → b.scene.slots.get? c = none ∧
          Cells.get? b.occupancy c = none ∧ Cells.get? stage.rules.levels c = none) := by
  refine ⟨fun w => ⟨w.enumerated, fun α a => ?_⟩, fun α cells => cells.addressed,
    fun w fits => ⟨WordWindow.coords_eq fits, fun c =>
      ⟨WordWindow.contains_eq fits c, WordWindow.index?_eq fits c⟩⟩, ?_⟩
  · rw [Window.length_coords]
    rfl
  · rintro pattern settings rotate overlaps cellSize ms layer s n p rs stage b rfl rfl c
    have start := covers_ofPattern pattern settings rotate overlaps cellSize ms
    have now := PassRules.covers_foldl_runRule (covers_attempts start layer s n) p rs
    refine ⟨fun i h => ⟨?_, ?_, ?_⟩, fun h => ⟨?_, ?_, ?_⟩⟩
    · exact Cells.index?_lt_size _ (now.scene ▸ h)
    · exact Cells.index?_lt_size _ (now.occupancy ▸ h)
    · exact Cells.index?_lt_size _ (now.levels ▸ h)
    · exact Cells.get?_eq_none_of_not_contains (now.scene ▸ h)
    · exact Cells.get?_eq_none_of_not_contains (now.occupancy ▸ h)
    · exact Cells.get?_eq_none_of_not_contains (now.levels ▸ h)

def aroundOrigin : WordWindow := ⟨⟨-1, -2⟩, ⟨3, 4⟩⟩

theorem cells_addressed_aroundOrigin :
    (aroundOrigin.coords.map Offset.toCoord).count .zero = 1 ∧
      (aroundOrigin.index? ⟨0, 0⟩).map Int32.toInt = some 7 ∧
      (aroundOrigin.index? ⟨Int32.maxValue, 0⟩).map Int32.toInt = none ∧
      ∀ b, b = PassRules.boardAfter Processor.torchStage.board
          ((Processor.torchStage.attempts Processor.torchLayer (Congruential.ofSeed 1)).take 1) →
        0 < b.occupancy.values.size ∧ Cells.get? b.occupancy ⟨-1, 0⟩ = none := by
  obtain ⟨windows, -, words, boards⟩ := cells_addressed (σ := Congruential)
  have fits : aroundOrigin.Fits := ⟨by decide, by decide, by decide⟩
  obtain ⟨listed, tested⟩ := words aroundOrigin fits
  refine ⟨?_, ?_, ?_, fun b hb => ?_⟩
  · rw [listed, (windows aroundOrigin.toWindow).1.once]
    decide
  · rw [(tested ⟨0, 0⟩).2]
    decide
  · rw [(tested ⟨Int32.maxValue, 0⟩).2]
    decide
  · have run := boards (Processor.torchLayer.pattern.getD .empty) .standard false false .one
      (Processor.oneFloor.map (.mapPose (Pose.inverse .identity))) Processor.torchLayer
      (Congruential.ofSeed 1) 1 ⟨.zero, .ofPattern .empty⟩ [] Processor.torchStage b rfl
      (hb.trans List.foldl_nil.symm)
    have tile : Processor.torchStage.board.scene.window.index? .zero = some 0 := by
      decide +kernel
    have beside : Processor.torchStage.board.scene.window.contains ⟨-1, 0⟩ = false := by
      decide +kernel
    exact ⟨((run .zero).1 0 tile).2.1, ((run ⟨-1, 0⟩).2 beside).2.1⟩

end Stage

end MarkerLattice
