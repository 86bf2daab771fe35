import Mathlib
import MarkerLattice.Proofs.Binary32.Whole
import MarkerLattice.Proofs.Geometry.Inverse
import MarkerLattice.Proofs.Lattice.RoundTrip

/-! Frames that only move. Single precision multiplies by zero and by one without rounding,
so of all the operations on the way into such a frame and back only the two sums with the
place of the frame count, and the second gives back what it got if the first does not round. -/
namespace MarkerLattice

open Binary32 (Denotes Representable)

namespace Binary32.Denotes

variable {x y : Binary32} {a : ℚ}

theorem representable (hx : x.Denotes a) : Representable a :=
  hx.toRat ▸ representable_toRat hx.finite

theorem representable_abs (hx : x.Denotes a) : Representable |a| := by
  rw [← hx.toRat, abs_toRat]
  exact representable_magnitude hx.finite

theorem times_zero (hx : x.Denotes a) (hy : y.Denotes 0) : (x * y).Denotes 0 := by
  have product := hx.mul hy (by simpa using hy.representable_abs)
  rwa [mul_comm, zero_mul] at product

theorem zero_times (hx : x.Denotes 0) (hy : y.Denotes a) : (x * y).Denotes 0 := by
  have product := hx.mul hy (by simpa using hx.representable_abs)
  rwa [zero_mul] at product

theorem times_one (hx : x.Denotes a) (hy : y.Denotes 1) : (x * y).Denotes a := by
  have product := hx.mul hy (by simpa using hx.representable_abs)
  rwa [mul_one] at product

theorem one_times (hx : x.Denotes 1) (hy : y.Denotes a) : (x * y).Denotes a := by
  have product := hx.mul hy (by simpa using hy.representable_abs)
  rwa [one_mul] at product

theorem plus_zero (hx : x.Denotes a) (hy : y.Denotes 0) : (x + y).Denotes a := by
  have sum := hx.add hy (by simpa using hx.representable)
  rwa [add_zero] at sum

theorem minus_zero (hx : x.Denotes a) (hy : y.Denotes 0) : (x - y).Denotes a := by
  have difference := hx.sub hy (by simpa using hx.representable)
  rwa [sub_zero] at difference

theorem plus_back {c : ℚ} (hx : x.Denotes (a - c)) (hy : y.Denotes c) (fits : Representable a) :
    (x + y).Denotes a := by
  have sum := hx.add hy (by rwa [sub_add_cancel])
  rwa [sub_add_cancel] at sum

theorem neg_of_zero (hx : x.Denotes 0) : (-x).Denotes 0 := by
  have opposite := hx.neg
  rwa [neg_zero] at opposite

end Binary32.Denotes

/-- The components stand for those of `r`. -/
structure Vec3.Denotes (v : Vec3 Binary32) (r : Vec3 ℚ) : Prop where
  x : v.x.Denotes r.x
  y : v.y.Denotes r.y
  z : v.z.Denotes r.z

@[inherit_doc Vec3.Denotes]
structure Quat.Denotes (q : Quat Binary32) (r : Quat ℚ) : Prop where
  x : q.x.Denotes r.x
  y : q.y.Denotes r.y
  z : q.z.Denotes r.z
  w : q.w.Denotes r.w

@[inherit_doc Vec3.Denotes]
structure Pose.Denotes (p : Pose Binary32) (r : Pose ℚ) : Prop where
  position : p.position.Denotes r.position
  rotation : p.rotation.Denotes r.rotation
  scale : p.scale.Denotes r.scale

instance (x : Binary32) (r : ℚ) : Decidable (x.Denotes r) :=
  decidable_of_iff (x.isFinite = true ∧ x.toRat = r) ⟨fun h => ⟨h.1, h.2⟩, fun h => ⟨h.1, h.2⟩⟩

instance (v : Vec3 Binary32) (r : Vec3 ℚ) : Decidable (v.Denotes r) :=
  decidable_of_iff (v.x.Denotes r.x ∧ v.y.Denotes r.y ∧ v.z.Denotes r.z)
    ⟨fun h => ⟨h.1, h.2.1, h.2.2⟩, fun h => ⟨h.x, h.y, h.z⟩⟩

instance (q : Quat Binary32) (r : Quat ℚ) : Decidable (q.Denotes r) :=
  decidable_of_iff (q.x.Denotes r.x ∧ q.y.Denotes r.y ∧ q.z.Denotes r.z ∧ q.w.Denotes r.w)
    ⟨fun h => ⟨h.1, h.2.1, h.2.2.1, h.2.2.2⟩, fun h => ⟨h.x, h.y, h.z, h.w⟩⟩

instance (p : Pose Binary32) (r : Pose ℚ) : Decidable (p.Denotes r) :=
  decidable_of_iff (p.position.Denotes r.position ∧ p.rotation.Denotes r.rotation ∧
    p.scale.Denotes r.scale) ⟨fun h => ⟨h.1, h.2.1, h.2.2⟩, fun h => ⟨h.1, h.2, h.3⟩⟩

theorem Binary32.denotes_two : two.Denotes 2 := by
  have exact : ofInt 2 = two := by decide +kernel
  simpa [exact] using denotes_ofInt (n := 2) (by decide)

namespace Quat.Denotes

variable {q r : Quat Binary32} {v : Vec3 Binary32} {a : Vec3 ℚ} {c : Quat ℚ}

theorem identity : (Quat.identity : Quat Binary32).Denotes .identity :=
  ⟨Binary32.denotes_zero, Binary32.denotes_zero, Binary32.denotes_zero, Binary32.denotes_one⟩

theorem rotate (hq : q.Denotes .identity) (hv : v.Denotes a) : (q.rotate v).Denotes a := by
  have hx : q.x.Denotes 0 := hq.x
  have hy : q.y.Denotes 0 := hq.y
  have hz : q.z.Denotes 0 := hq.z
  have hw : q.w.Denotes 1 := hq.w
  have real := (hw.times_one hw).minus_zero
    (((hx.times_zero hx).plus_zero (hy.times_zero hy)).plus_zero (hz.times_zero hz))
  have along := ((((hv.x.times_zero hx).plus_zero (hv.y.times_zero hy)).plus_zero
    (hv.z.times_zero hz)).zero_times Binary32.denotes_two)
  have twice := hw.one_times Binary32.denotes_two
  refine ⟨?_, ?_, ?_⟩
  · exact ((hv.x.times_one real).plus_zero (hx.zero_times along)).plus_zero
      (((hy.zero_times hv.z).minus_zero (hz.zero_times hv.y)).zero_times twice)
  · exact ((hv.y.times_one real).plus_zero (hy.zero_times along)).plus_zero
      (((hz.zero_times hv.x).minus_zero (hx.zero_times hv.z)).zero_times twice)
  · exact ((hv.z.times_one real).plus_zero (hz.zero_times along)).plus_zero
      (((hx.zero_times hv.y).minus_zero (hy.zero_times hv.x)).zero_times twice)

theorem mul (hq : q.Denotes .identity) (hr : r.Denotes c) : (q.mul r).Denotes c := by
  have hx : q.x.Denotes 0 := hq.x
  have hy : q.y.Denotes 0 := hq.y
  have hz : q.z.Denotes 0 := hq.z
  have hw : q.w.Denotes 1 := hq.w
  refine ⟨?_, ?_, ?_, ?_⟩
  · exact ((hw.one_times hr.x).plus_zero (hx.zero_times hr.w)).plus_zero
      ((hy.zero_times hr.z).minus_zero (hz.zero_times hr.y))
  · exact ((hw.one_times hr.y).minus_zero (hx.zero_times hr.z)).plus_zero
      ((hy.zero_times hr.w).plus_zero (hz.zero_times hr.x))
  · exact ((hw.one_times hr.z).plus_zero (hx.zero_times hr.y)).plus_zero
      ((hy.zero_times hr.x).neg_of_zero.plus_zero (hz.zero_times hr.w))
  · exact ((hw.one_times hr.w).minus_zero (hx.zero_times hr.x)).plus_zero
      ((hy.zero_times hr.y).neg_of_zero.minus_zero (hz.zero_times hr.z))

theorem conjugate (hq : q.Denotes .identity) : q.conjugate.Denotes .identity :=
  ⟨Binary32.Denotes.neg_of_zero hq.x, Binary32.Denotes.neg_of_zero hq.y,
    Binary32.Denotes.neg_of_zero hq.z, hq.w⟩

end Quat.Denotes

namespace Vec3.Denotes

variable {s v w : Vec3 Binary32} {a b : Vec3 ℚ}

theorem one : (Vec3.one : Vec3 Binary32).Denotes .one :=
  ⟨Binary32.denotes_one, Binary32.denotes_one, Binary32.denotes_one⟩

theorem scaled (hs : s.Denotes .one) (hv : v.Denotes a) : (s.scaled v).Denotes a :=
  ⟨Binary32.Denotes.one_times hs.x hv.x, Binary32.Denotes.one_times hs.y hv.y,
    Binary32.Denotes.one_times hs.z hv.z⟩

theorem neg (hv : v.Denotes a) : v.neg.Denotes a.neg :=
  ⟨hv.x.neg, hv.y.neg, hv.z.neg⟩

end Vec3.Denotes

/-- Single precision can write where the pose stands in a frame at `c`. -/
structure Pose.WritableFrom (r : Pose ℚ) (c : Vec3 ℚ) : Prop where
  x : Representable (r.position.x - c.x)
  y : Representable (r.position.y - c.y)
  z : Representable (r.position.z - c.z)

theorem Pose.Denotes.returned_ofPosition {t : Vec3 Binary32} {b : Pose Binary32} {c : Vec3 ℚ}
    {r : Pose ℚ} (ht : t.Denotes c) (hb : b.Denotes r) (writable : r.WritableFrom c) :
    ((Pose.ofPosition t).returned b).Denotes r := by
  obtain ⟨x, y, z⟩ := writable
  have turn := Quat.Denotes.identity
  have back := turn.conjugate
  have size := Vec3.Denotes.one
  have size' : (Vec3.one : Vec3 Binary32).reciprocal.Denotes .one := by
    have same : (Vec3.one : Vec3 Binary32).reciprocal = .one := by decide +kernel
    rwa [same]
  have place := back.rotate (size'.scaled hb.position)
  have origin := back.rotate (size'.scaled ht.neg)
  have inside : ((Pose.ofPosition t).inverse.compose b).position.Denotes
      ⟨r.position.x - c.x, r.position.y - c.y, r.position.z - c.z⟩ := by
    simp only [sub_eq_add_neg] at x y z ⊢
    exact ⟨place.x.add origin.x x, place.y.add origin.y y, place.z.add origin.z z⟩
  have outside := turn.rotate (size.scaled inside)
  refine ⟨⟨?_, ?_, ?_⟩, turn.mul (back.mul hb.rotation), size.scaled (size'.scaled hb.scale)⟩
  · exact outside.x.plus_back ht.x hb.position.x.representable
  · exact outside.y.plus_back ht.y hb.position.y.representable
  · exact outside.z.plus_back ht.z hb.position.z.representable

end MarkerLattice
