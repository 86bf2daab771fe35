import MarkerLattice.Lattice.Level
import MarkerLattice.Pattern.Orientation
import MarkerLattice.Script.Effect

/-!
Effects on a scene: what a rule's actions do to the slot the rule stands on.
-/
namespace MarkerLattice

structure Stance where
  slot : Slot
  angle : Binary32
  quarterTurns : Int
deriving DecidableEq

namespace Stance

def initial : Stance := ⟨⟨.zero, .ground⟩, .zero, 0⟩

/-- What edges turn on top of their orientation to face across the edge. -/
def edgeAngle (s : Stance) : Binary32 :=
  match s.quarterTurns, s.slot.part with
  | 0, .edgeY | 1, .edgeX => quarterAngle
  | 2, .edgeY | 3, .edgeX => threeQuarterAngle
  | _, _ => .zero

def rotation (s : Stance) : Quat Binary32 := .turn (s.angle + s.edgeAngle)

end Stance

def Placement.stance (p : Placement) (r : PlacedRule) : Stance :=
  ⟨p.slot r, p.orientation.angle, p.orientation.quarterTurns⟩

namespace Scene

def emittedPose (s : Scene) (levels : Levels) (stance : Stance) (e : Emission) :
    Pose Binary32 :=
  let present := s.markers stance.slot
  let place := s.locationOf stance.slot ((levels.slot? stance.slot).getD 0)
  { position := match present.firstNamed? e.heightFrom with
      | some m => { place with z := m.location.z }
      | none => place
    rotation := match present.firstNamed? e.rotationFrom with
      | some m => m.pose.rotation
      | none => stance.rotation
    scale := .one }

/-- Adds a marker to the slot, unless the same one is there. The identifier is
used up in either case. Outside the window nothing happens. -/
def emit (s : Scene) (levels : Levels) (stance : Stance) (e : Emission) : Scene :=
  if s.hasCell stance.slot.coord then
    let pose := s.emittedPose levels stance e
    let (id, s) := s.takeId
    s.add stance.slot { id, name := e.name, pose }
  else s

def perform (levels : Levels) (stance : Stance) (s : Scene) : Effect → Scene
  | .emit e => s.emit levels stance e
  | .remove name => s.remove stance.slot name

def performAll (s : Scene) (levels : Levels) (stance : Stance) (effects : List Effect) :
    Scene :=
  effects.foldl (perform levels stance) s

end Scene

end MarkerLattice
