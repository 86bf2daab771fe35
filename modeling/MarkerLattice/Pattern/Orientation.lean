import MarkerLattice.Lattice.Level
import MarkerLattice.Pattern

/-!
Orientations: a pattern with its bounds, turned by up to three quarters, and
the placements of an orientation around a window.
-/
namespace MarkerLattice

structure PlacedRule where
  coord : Coord
  part : SubCell
  inserts : Bool
  script : Script
deriving DecidableEq

/-- The rule where its author put it. A script that emits always inserts. -/
def PlacedRule.ofRule (r : Rule) : PlacedRule where
  coord := r.offset.toCoord
  part := r.part
  inserts := r.inserts || r.script.hasEmission
  script := r.script

def quarterAngle : Binary32 := ⟨0x3fc90fdb⟩

def threeQuarterAngle : Binary32 := ⟨0x4096cbe4⟩

namespace SubCell

def turned : SubCell → SubCell
  | ground => ground
  | edgeX => edgeY
  | edgeY => edgeX
  | corner => corner

/-- What lies between a coordinate and the centre of a cell, for each part. -/
def pivot : SubCell → Vec2 Binary32
  | ground => ⟨.zero, .zero⟩
  | edgeX => ⟨.zero, .half⟩
  | edgeY => ⟨.half, .zero⟩
  | corner => ⟨.half, .half⟩

end SubCell

/-- A quarter turn counter-clockwise about the centre of the origin cell. -/
def PlacedRule.turned (r : PlacedRule) : PlacedRule :=
  let c := r.coord.toVec
  let part := r.part.turned
  { r with
    coord :=
      { x := (-(c.y - r.part.pivot.y) + part.pivot.x).roundHalfUp
        y := ((c.x - r.part.pivot.x) + part.pivot.y).roundHalfUp }
    part }

structure Orientation where
  rules : List PlacedRule
  low : Coord
  high : Coord
  angle : Binary32
  quarterTurns : Int
deriving DecidableEq

namespace Orientation

def ofRules (rules : List PlacedRule) (angle : Binary32) (quarterTurns : Int) :
    Orientation :=
  match rules.map PlacedRule.coord with
  | [] => { rules, low := .zero, high := .zero, angle, quarterTurns }
  | c :: cs =>
    { rules, low := cs.foldl Coord.lower c, high := cs.foldl Coord.upper c, angle,
      quarterTurns }

def ofPattern (p : Pattern) : Orientation :=
  ofRules (p.rules.map .ofRule) .zero 0

def turned (o : Orientation) : Orientation :=
  ofRules (o.rules.map .turned) (o.angle + quarterAngle) (o.quarterTurns + 1)

/-- The first `n + 1` orientations, each a quarter turn after the one before. -/
def turns : Nat → Orientation → List Orientation
  | 0, o => [o]
  | n + 1, o => o :: turns n o.turned

def ofPatternAll (p : Pattern) (rotate : Bool) : List Orientation :=
  turns (if rotate then 3 else 0) (ofPattern p)

/-- The number of columns and rows from the lowest to the highest coordinate. -/
def extent (o : Orientation) : Coord := o.high - o.low + .one

end Orientation

structure Placement where
  base : Coord
  orientation : Orientation

namespace Placement

def slot (p : Placement) (r : PlacedRule) : Slot := ⟨p.base + r.coord, r.part⟩

def interval (lo hi : Int) : List Int :=
  (List.range (hi - lo + 1).toNat).map fun (i : Nat) => lo + i

def between (o : Orientation) (first last : Coord) : List Placement :=
  if o.rules.isEmpty then []
  else
    (interval first.y last.y).flatMap fun y =>
      (interval first.x last.x).map fun x => ⟨⟨x, y⟩, o⟩

/-- The placements of an orientation that are tried around a window. The corners are
kept in words, and one that wraps around leaves nothing between them. -/
def around (o : Orientation) (w : Window) : List Placement :=
  between o (w.offset - o.extent).wrapped (w.offset + w.size).wrapped

end Placement

end MarkerLattice
