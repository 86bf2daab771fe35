import Mathlib
import MarkerLattice.Pattern.Orientation
import MarkerLattice.Proofs.Binary32.Exact

/-! A quarter turn in whole numbers. The turn of a rule goes through single
precision numbers; near the origin all of them are halves of whole numbers and
nothing is rounded. -/
namespace MarkerLattice

namespace Binary32

abbrev Halves (x : Binary32) (n : ℤ) : Prop := x.Denotes (n / 2)

theorem halves_zero : zero.Halves 0 := by
  simpa [Halves] using denotes_zero

theorem halves_half : half.Halves 1 := by
  rw [Halves, Int.cast_one]
  exact denotes_half

theorem halves_ofInt {n : ℤ} (h : n.natAbs < 2 ^ 24) : (ofInt n).Halves (2 * n) := by
  rw [Halves, Int.cast_mul, Int.cast_ofNat, mul_div_cancel_left₀ _ two_ne_zero]
  exact denotes_ofInt h

namespace Halves

variable {x y : Binary32} {m n : ℤ}

theorem add (hx : x.Halves m) (hy : y.Halves n) (h : (m + n).natAbs < 2 ^ 24) :
    (x + y).Halves (m + n) := by
  have split : ((m + n : ℤ) : ℚ) / 2 = m / 2 + n / 2 := by
    rw [Int.cast_add, add_div]
  have fits := representable_half h
  rw [Halves, split] at *
  exact Denotes.add hx hy fits

theorem neg (hx : x.Halves n) : (-x).Halves (-n) := by
  rw [Halves, Int.cast_neg, neg_div]
  exact Denotes.neg hx

theorem sub (hx : x.Halves m) (hy : y.Halves n) (h : (m - n).natAbs < 2 ^ 24) :
    (x - y).Halves (m - n) := by
  rw [sub_eq_add_neg] at h ⊢
  exact hx.add hy.neg h

theorem roundHalfUp (hx : x.Halves n) (h : (n + 1).natAbs < 2 ^ 24) :
    x.roundHalfUp = (n + 1) / 2 := by
  have sum := hx.add halves_half h
  have whole : ⌊((n + 1 : ℤ) : ℚ) / 2⌋ = (n + 1) / 2 :=
    Rat.floor_intCast_div_natCast (n + 1) 2
  have floor := Denotes.floor sum (by rw [whole]; omega)
  rw [whole] at floor
  exact floor.toInt (by omega)

end Halves

end Binary32

namespace SubCell

def pivotHalves : SubCell → Coord
  | ground => ⟨0, 0⟩
  | edgeX => ⟨0, 1⟩
  | edgeY => ⟨1, 0⟩
  | corner => ⟨1, 1⟩

theorem halves_pivot (part : SubCell) :
    part.pivot.x.Halves part.pivotHalves.x ∧ part.pivot.y.Halves part.pivotHalves.y := by
  cases part
  · exact ⟨Binary32.halves_zero, Binary32.halves_zero⟩
  · exact ⟨Binary32.halves_zero, Binary32.halves_half⟩
  · exact ⟨Binary32.halves_half, Binary32.halves_zero⟩
  · exact ⟨Binary32.halves_half, Binary32.halves_half⟩

theorem pivotHalves_bounds (part : SubCell) :
    0 ≤ part.pivotHalves.x ∧ part.pivotHalves.x ≤ 1 ∧
      0 ≤ part.pivotHalves.y ∧ part.pivotHalves.y ≤ 1 := by
  cases part <;> decide

end SubCell

def Slot.turned (s : Slot) : Slot where
  coord := match s.part with
    | .ground | .edgeY => ⟨-s.coord.y, s.coord.x⟩
    | .edgeX | .corner => ⟨1 - s.coord.y, s.coord.x⟩
  part := s.part.turned

theorem Slot.turned_injective : Function.Injective Slot.turned := by
  rintro ⟨⟨x, y⟩, part⟩ ⟨⟨x', y'⟩, part'⟩ h
  cases part <;> cases part' <;>
    simp only [turned, SubCell.turned, mk.injEq, Coord.mk.injEq, reduceCtorEq, and_false,
      and_true] at h ⊢ <;> omega

namespace PlacedRule

def place (r : PlacedRule) : Slot := ⟨r.coord, r.part⟩

def Within (n : ℕ) (r : PlacedRule) : Prop := r.coord.x.natAbs ≤ n ∧ r.coord.y.natAbs ≤ n

variable {r : PlacedRule}

theorem coord_turned (h : r.Within (2 ^ 23 - 2)) : r.turned.coord =
    { x := (-(2 * r.coord.y - r.part.pivotHalves.y) + r.part.turned.pivotHalves.x + 1) / 2
      y := ((2 * r.coord.x - r.part.pivotHalves.x) + r.part.turned.pivotHalves.y + 1) / 2 } := by
  obtain ⟨hx, hy⟩ := h
  have x := Binary32.halves_ofInt (n := r.coord.x) (by omega)
  have y := Binary32.halves_ofInt (n := r.coord.y) (by omega)
  obtain ⟨px, py⟩ := r.part.halves_pivot
  obtain ⟨tx, ty⟩ := r.part.turned.halves_pivot
  have small := r.part.pivotHalves_bounds
  have small' := r.part.turned.pivotHalves_bounds
  have left := ((y.sub py (by omega)).neg.add tx (by omega)).roundHalfUp (by omega)
  have down := ((x.sub px (by omega)).add ty (by omega)).roundHalfUp (by omega)
  rw [← left, ← down]
  rfl

/-- The single precision turn of a rule is the turn of its slot. -/
theorem place_turned (h : r.Within (2 ^ 23 - 2)) : r.turned.place = r.place.turned := by
  have coord := coord_turned h
  have part : r.turned.part = r.part.turned := rfl
  rw [place, coord, part]
  cases hp : r.part <;>
    simp only [Slot.turned, place, hp, SubCell.turned, SubCell.pivotHalves, Slot.mk.injEq,
      Coord.mk.injEq, and_true] <;> omega

theorem within_turned {n : ℕ} (h : r.Within n) (room : n ≤ 2 ^ 23 - 2) :
    r.turned.Within (n + 1) := by
  obtain ⟨hx, hy⟩ := h
  have turned := place_turned (r := r) ⟨hx.trans room, hy.trans room⟩
  have coord : r.turned.coord = r.place.turned.coord := congrArg Slot.coord turned
  rw [Within, coord]
  simp only [Slot.turned, place]
  split
  · dsimp only
    omega
  · dsimp only
    omega
  · dsimp only
    omega
  · dsimp only
    omega

end PlacedRule

end MarkerLattice
