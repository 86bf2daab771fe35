import MarkerLattice.Lattice.Cells
import MarkerLattice.Marker

/-!
Scenes: the markers of one pass, kept by slot. The window covers the bounding
box of the markers and a margin. Flattening a scene lists its markers in the
order of the lattice under new identifiers.
-/
namespace MarkerLattice

/-- The markers of one slot. No two of them are the same. -/
abbrev MarkerList := List Marker

namespace MarkerList

def add (l : MarkerList) (m : Marker) : MarkerList :=
  if l.any fun n => n.isSame m then l else l ++ [m]

def remove (l : MarkerList) (name : String) : MarkerList :=
  l.filter fun m => m.name ≠ name

def hasName (l : MarkerList) (name : String) : Bool := l.any fun m => m.name = name

def firstNamed? (l : MarkerList) (names : List String) : Option Marker :=
  l.find? fun m => m.name ∈ names

end MarkerList

structure Scene where
  cellSize : Vec3 Binary32
  slots : SlotGrid MarkerList
  nextId : Int32

namespace Scene

def window (s : Scene) : Window := s.slots.window

/-- The markers of a slot; none outside the window. -/
def markers (s : Scene) (slot : Slot) : MarkerList := (s.slots.slot? slot).getD []

def hasCell (s : Scene) (c : Coord) : Bool := s.window.contains c

def modifySlot (s : Scene) (slot : Slot) (f : MarkerList → MarkerList) : Scene :=
  { s with slots := s.slots.modifySlot slot f }

def slotOf (s : Scene) (p : Location) : Slot := .ofLocation s.cellSize.flat p

def locationOf (s : Scene) (slot : Slot) (level : Int) : Location :=
  slot.location s.cellSize level

def add (s : Scene) (slot : Slot) (m : Marker) : Scene := s.modifySlot slot (·.add m)

def remove (s : Scene) (slot : Slot) (name : String) : Scene :=
  s.modifySlot slot (·.remove name)

def clear (s : Scene) (c : Coord) : Scene :=
  { s with slots := s.slots.set c (.replicate []) }

def contains (s : Scene) (slot : Slot) (name : String) : Bool :=
  (s.markers slot).hasName name

def takeId (s : Scene) : Int32 × Scene := (s.nextId, { s with nextId := s.nextId + 1 })

/-- The lowest and the highest corner of the locations; zero if there are none. -/
def bounds (ps : List Location) : Vec2 Binary32 × Vec2 Binary32 :=
  match ps with
  | [] => (⟨.zero, .zero⟩, ⟨.zero, .zero⟩)
  | first :: _ =>
    ps.foldl (fun (lo, hi) p =>
        (⟨lo.x.lower p.x, lo.y.lower p.y⟩, ⟨hi.x.upper p.x, hi.y.upper p.y⟩))
      (first.flat, first.flat)

/-- The cell of a corner of the bounds. A cell size that is not positive has
only the origin. -/
def boundCell (cellSize : Vec2 Binary32) (p : Vec2 Binary32) : Coord :=
  if Binary32.zero.lt cellSize.x && Binary32.zero.lt cellSize.y then
    ⟨(p.x / cellSize.x).floor.toInt, (p.y / cellSize.y).floor.toInt⟩
  else .zero

def windowOf (cellSize : Vec2 Binary32) (ps : List Location) (margin : Int) : Window :=
  let (lo, hi) := bounds ps
  let first := boundCell cellSize lo
  let last := boundCell cellSize hi
  { offset := first - .splat margin
    size := last - first + .one + .splat (2 * margin) }

def ofMarkers (cellSize : Vec3 Binary32) (ms : List Marker) (margin : Int) : Scene :=
  let w := windowOf cellSize.flat (ms.map Marker.location) margin
  ms.foldl (fun s m => s.add (s.slotOf m.location) m)
    { cellSize, slots := Cells.fill w (.replicate []), nextId := Int32.ofNat ms.length }

def listCell (q : Quad MarkerList) : List Marker :=
  q.ground ++ q.corner ++ q.edgeX ++ q.edgeY

def renumber (ms : List Marker) : List Marker :=
  ms.mapIdx fun i m => { m with id := Int32.ofNat i }

def flatten (s : Scene) : List Marker :=
  renumber (s.slots.values.toList.flatMap listCell)

end Scene

end MarkerLattice
