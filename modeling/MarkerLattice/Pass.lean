import MarkerLattice.Emit
import MarkerLattice.Layer
import MarkerLattice.Random
import MarkerLattice.Script.Condition

/-!
Passes: one layer over one marker list. Every placement of every orientation is
tried in turn, so later placements see what earlier ones did.
-/
namespace MarkerLattice

inductive Outcome where
  | overlapRejected
  | heightRejected
  | conditionFailed
  | executed
deriving DecidableEq, Repr

structure Tally where
  candidates : Nat
  gatedOut : Nat
  overlapRejected : Nat
  heightRejected : Nat
  conditionFailed : Nat
  executed : Nat
deriving DecidableEq, Repr

namespace Tally

def ofCandidates (n : Nat) : Tally := ⟨n, 0, 0, 0, 0, 0⟩

def gate (t : Tally) : Tally := { t with gatedOut := t.gatedOut + 1 }

def record (t : Tally) : Outcome → Tally
  | .overlapRejected => { t with overlapRejected := t.overlapRejected + 1 }
  | .heightRejected => { t with heightRejected := t.heightRejected + 1 }
  | .conditionFailed => { t with conditionFailed := t.conditionFailed + 1 }
  | .executed => { t with executed := t.executed + 1 }

end Tally

structure Board where
  scene : Scene
  occupancy : Occupancy

structure PassRules where
  levels : Levels
  cellHeight : Binary32
  sameHeight : List String
  overlaps : Bool

namespace PassRules

def overlapsAt (b : Board) (p : Placement) : Bool :=
  p.orientation.rules.any fun r => r.inserts && b.occupancy.isOccupied (p.slot r)

/-- The level of a marker for the check of heights: whole cells, toward zero.
A cell height that is not positive counts as one unit. -/
def markerLevel (cellHeight : Binary32) (m : Marker) : Int :=
  (m.location.z / if Binary32.zero.lt cellHeight then cellHeight else .one).toInt

def trackedLevels (rules : PassRules) (b : Board) (p : Placement) : List (String × Int) :=
  p.orientation.rules.flatMap fun r =>
    ((b.scene.markers (p.slot r)).filter fun m => m.name ∈ rules.sameHeight).map fun m =>
      (m.name, markerLevel rules.cellHeight m)

/-- Every tracked name sits at the level where it was seen first. -/
def heightsAgree (rules : PassRules) (b : Board) (p : Placement) : Bool :=
  let seen := rules.trackedLevels b p
  seen.all fun e => seen.lookup e.1 = some e.2

def conditionsHold (b : Board) (p : Placement) : Bool :=
  p.orientation.rules.all fun r =>
    r.script.selection.holds (b.scene.contains (p.slot r))

def runRule (rules : PassRules) (p : Placement) (b : Board) (r : PlacedRule) : Board where
  scene := b.scene.performAll rules.levels (p.stance r) r.script.effects
  occupancy := if r.inserts then b.occupancy.mark (p.slot r) else b.occupancy

/-- Tries one placement: overlaps, heights, every condition, then every rule's
actions. -/
def tryPlacement (rules : PassRules) (b : Board) (p : Placement) : Outcome × Board :=
  if !rules.overlaps && overlapsAt b p then (.overlapRejected, b)
  else if !rules.sameHeight.isEmpty && !rules.heightsAgree b p then (.heightRejected, b)
  else if !conditionsHold b p then (.conditionFailed, b)
  else (.executed, p.orientation.rules.foldl (rules.runRule p) b)

variable {σ : Type} [RandomStream σ]

/-- Tries placements in order. Each costs one draw and is left out unless the
draw is below the probability; nothing is left out by a NaN. -/
def tryAll (rules : PassRules) (probability : Binary32) :
    List Placement → Board → Tally → σ → Board × Tally × σ
  | [], b, tally, s => (b, tally, s)
  | p :: rest, b, tally, s =>
    let (fraction, s) := RandomStream.nextFraction s
    if probability.le fraction then rules.tryAll probability rest b tally.gate s
    else
      let (outcome, b) := rules.tryPlacement b p
      rules.tryAll probability rest b (tally.record outcome) s

end PassRules

structure Stage where
  rules : PassRules
  board : Board
  orientations : List Orientation

namespace Stage

def ofPattern (pattern : Pattern) (settings : GridSettings) (rotate overlaps : Bool)
    (cellSize : Vec3 Binary32) (ms : List Marker) : Stage :=
  let scene := Scene.ofMarkers cellSize ms settings.margin
  { rules :=
      { levels := scene.levels settings.edgeMode
        cellHeight := cellSize.z
        sameHeight := settings.sameHeight
        overlaps }
    board := { scene, occupancy := .none scene.window }
    orientations := Orientation.ofPatternAll pattern rotate }

def ofLayer? (layer : Layer) (cellSize : Vec3 Binary32) (ms : List Marker) : Option Stage := do
  let pattern ← layer.pattern
  let settings ← layer.gridSettings?
  return ofPattern pattern settings layer.rotate layer.overlaps cellSize ms

def placements (stage : Stage) : List Placement :=
  stage.orientations.flatMap fun o => Placement.around o stage.board.scene.window

end Stage

structure PassResult where
  markers : List Marker
  tally : Tally

structure Processor where
  frame : Pose Binary32
  cellSize : Vec3 Binary32
deriving DecidableEq

namespace Processor

variable {σ : Type} [RandomStream σ]

/-- Runs a layer. The markers are matched in the frame of the dungeon. A layer
without a pattern that can change something or without settings for the lattice
does not apply, and draws nothing. -/
def process? (d : Processor) (layer : Layer) (ms : List Marker) (s : σ) :
    Option (PassResult × σ) :=
  if !(layer.pattern.any Pattern.hasEffect) then none
  else (Stage.ofLayer? layer d.cellSize (ms.map (.mapPose d.frame.inverse))).map fun stage =>
    let all := stage.placements
    let (all, s) :=
      if layer.shuffle then
        let (a, s) := RandomStream.shuffle all.toArray s
        (a.toList, s)
      else (all, s)
    let (board, tally, s) :=
      stage.rules.tryAll layer.probability all stage.board (.ofCandidates all.length) s
    ({ markers := board.scene.flatten.map (.mapPose d.frame), tally }, s)

def applyLayer (d : Processor) (state : List Marker × σ) (layer : Layer) : List Marker × σ :=
  match d.process? layer state.1 state.2 with
  | some (result, s) => (result.markers, s)
  | none => state

def apply (d : Processor) (model : Model) (ms : List Marker) (s : σ) : List Marker × σ :=
  model.layers.foldl d.applyLayer (ms, s)

end Processor

end MarkerLattice
