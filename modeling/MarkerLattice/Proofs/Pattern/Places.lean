import Mathlib
import MarkerLattice.Proofs.Pattern.Coverage

/-! The number of placements of an orientation around a window. It depends on the
slots of the rules only, and so it does for every turn of the orientation. -/
namespace MarkerLattice

namespace Orientation

variable {o o' : Orientation}

/-- The slots of the rules when the orientation stands on the origin. -/
def places (o : Orientation) : Set Slot := {slot | ∃ r ∈ o.rules, r.place = slot}

end Orientation

def Pattern.places (p : Pattern) : Set (Offset × SubCell) :=
  {k | ∃ r ∈ p.rules, (r.offset, r.part) = k}

namespace Placement

variable {o o' : Orientation} (w : Window)

end Placement

end MarkerLattice
