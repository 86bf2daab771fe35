import MarkerLattice.Geometry

/-!
Lattice coordinates and the four slots of each: the tile, the edge below it, the
edge to its left and its lower left corner.
-/
namespace MarkerLattice

structure Coord where
  x : Int
  y : Int
deriving DecidableEq, Repr

namespace Coord

def zero : Coord := ⟨0, 0⟩

def one : Coord := ⟨1, 1⟩

instance : Add Coord := ⟨fun a b => ⟨a.x + b.x, a.y + b.y⟩⟩

instance : Sub Coord := ⟨fun a b => ⟨a.x - b.x, a.y - b.y⟩⟩

@[simp] theorem add_x (a b : Coord) : (a + b).x = a.x + b.x := rfl
@[simp] theorem add_y (a b : Coord) : (a + b).y = a.y + b.y := rfl
@[simp] theorem sub_x (a b : Coord) : (a - b).x = a.x - b.x := rfl
@[simp] theorem sub_y (a b : Coord) : (a - b).y = a.y - b.y := rfl

def lower (a b : Coord) : Coord := ⟨min a.x b.x, min a.y b.y⟩

def upper (a b : Coord) : Coord := ⟨max a.x b.x, max a.y b.y⟩

def splat (n : Int) : Coord := ⟨n, n⟩

def toVec (c : Coord) : Vec2 Binary32 := ⟨.ofInt c.x, .ofInt c.y⟩

/-- The coordinate as words of 32 bits keep it. -/
def wrapped (c : Coord) : Coord := ⟨(Int32.ofInt c.x).toInt, (Int32.ofInt c.y).toInt⟩

end Coord

inductive SubCell where
  | ground
  | edgeX
  | edgeY
  | corner
deriving DecidableEq, Repr

namespace SubCell

def all : List SubCell := [ground, edgeX, edgeY, corner]

def name : SubCell → String
  | ground => "Ground"
  | edgeX => "EdgeX"
  | edgeY => "EdgeY"
  | corner => "Corner"

/-- Where the part lies in its cell, in cell units. -/
def offset : SubCell → Vec2 Binary32
  | ground => ⟨.half, .half⟩
  | edgeX => ⟨.half, .zero⟩
  | edgeY => ⟨.zero, .half⟩
  | corner => ⟨.zero, .zero⟩

end SubCell

structure Slot where
  coord : Coord
  part : SubCell
deriving DecidableEq, Repr

namespace Slot

/-- How far a location may be off a slot's place and still belong to it, in cell
units. -/
def tolerance : Binary32 := ⟨0x3c23d70a⟩

def isNear (value target : Binary32) : Bool := (value - target).abs.le tolerance

/-- The part of a cell at a place within it. What is near no corner and no edge
midpoint is ground. -/
def partAt (x y : Binary32) : SubCell :=
  if isNear x .zero && isNear y .zero then .corner
  else if isNear x .half && isNear y .zero then .edgeX
  else if isNear x .zero && isNear y .half then .edgeY
  else .ground

/-- The slot of a location. A cell size that is not positive puts everything
into the corner of the origin. -/
def ofLocation (cellSize : Vec2 Binary32) (p : Location) : Slot :=
  if cellSize.x.le .zero || cellSize.y.le .zero then ⟨.zero, .corner⟩
  else
    let x := p.x / cellSize.x
    let y := p.y / cellSize.y
    ⟨⟨x.floor.toInt, y.floor.toInt⟩, partAt (x - x.floor) (y - y.floor)⟩

def location (cellSize : Vec3 Binary32) (s : Slot) (level : Int) : Location where
  x := (s.coord.toVec.x + s.part.offset.x) * cellSize.x
  y := (s.coord.toVec.y + s.part.offset.y) * cellSize.y
  z := .ofInt level * cellSize.z

end Slot

end MarkerLattice
