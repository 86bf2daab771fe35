import MarkerLattice.Geometry

/-!
Markers: named poses that a dungeon builder hands over and takes back.
-/
namespace MarkerLattice

structure Marker where
  id : Int32
  name : String
  pose : Pose Binary32
deriving DecidableEq

namespace Marker

def location (m : Marker) : Location := m.pose.position

/-- Locations up to `1e-4` apart on every axis count as one. -/
def tolerance : Binary32 := ⟨0x38d1b717⟩

def locationsEqual (p q : Location) : Bool :=
  let d := (p.sub q).map Binary32.abs
  (d.x.upper (d.y.upper d.z)).le tolerance

def isSame (m n : Marker) : Bool :=
  m.name == n.name && locationsEqual m.location n.location

def mapPose (p : Pose Binary32) (m : Marker) : Marker := { m with pose := p.compose m.pose }

end Marker

end MarkerLattice
