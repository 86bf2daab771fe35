import Mathlib
import MarkerLattice.Geometry

/-! Poses in exact arithmetic. Quaternions turn vectors as the quaternion algebra does, so
the conjugate of a quaternion of norm one turns them back. The inverse of a pose undoes the
scale before the rotation though the scale came first. That is right where the two commute:
where the scale is the same in all directions that the rotation turns. -/
namespace MarkerLattice

attribute [ext] Vec3 Quat Pose

/-- What is tiny is so for numbers of single precision too. -/
instance : Scalar ℚ where
  zero := 0
  one := 1
  two := 2
  isTiny x := decide (|x| ≤ 1 / 2 ^ 23)

@[simp] theorem Scalar.two_eq : (Scalar.two : ℚ) = 2 := rfl

def Pose.returned {α : Type} [Scalar α] (frame b : Pose α) : Pose α :=
  frame.compose (frame.inverse.compose b)

namespace Vec3

variable (u v : Vec3 ℚ) {s : Vec3 ℚ}

theorem scaled_add (s : Vec3 ℚ) : s.scaled (u.add v) = (s.scaled u).add (s.scaled v) := by
  ext <;> exact mul_add _ _ _

theorem add_neg_add : (v.add u.neg).add u = v := by
  ext <;> exact neg_add_cancel_right _ _

theorem add_add_neg : (v.add u).add u.neg = v := by
  ext <;> exact add_neg_cancel_right _ _

structure Sized (s : Vec3 ℚ) : Prop where
  x : 1 / 2 ^ 23 < |s.x|
  y : 1 / 2 ^ 23 < |s.y|
  z : 1 / 2 ^ 23 < |s.z|

namespace Sized

theorem component {x : ℚ} (h : 1 / 2 ^ 23 < |x|) :
    (if Scalar.isTiny x then Scalar.zero else Scalar.one / x) = x⁻¹ ∧ x ≠ 0 := by
  have large : Scalar.isTiny x = false := decide_eq_false h.not_ge
  exact ⟨(if_neg (by simp [large])).trans (one_div x), abs_pos.mp (lt_trans (by norm_num) h)⟩

theorem reciprocal_eq (h : s.Sized) : s.reciprocal = ⟨s.x⁻¹, s.y⁻¹, s.z⁻¹⟩ :=
  Vec3.ext (component h.x).1 (component h.y).1 (component h.z).1

theorem scaled_reciprocal (h : s.Sized) : s.scaled (s.reciprocal.scaled v) = v := by
  rw [h.reciprocal_eq]
  exact Vec3.ext (mul_inv_cancel_left₀ (component h.x).2 _)
    (mul_inv_cancel_left₀ (component h.y).2 _) (mul_inv_cancel_left₀ (component h.z).2 _)

theorem reciprocal_scaled (h : s.Sized) : s.reciprocal.scaled (s.scaled v) = v := by
  rw [h.reciprocal_eq]
  exact Vec3.ext (inv_mul_cancel_left₀ (component h.x).2 _)
    (inv_mul_cancel_left₀ (component h.y).2 _) (inv_mul_cancel_left₀ (component h.z).2 _)

end Sized

end Vec3

namespace Quat

open Quaternion

variable (q r : Quat ℚ) (u v : Vec3 ℚ)

@[simps]
def value : ℍ[ℚ] := ⟨q.w, q.x, q.y, q.z⟩

@[simps]
def ofVec : ℍ[ℚ] := ⟨0, v.x, v.y, v.z⟩

variable {q r u v}

theorem ext_value (h : q.value = r.value) : q = r :=
  Quat.ext (congrArg (·.imI) h) (congrArg (·.imJ) h) (congrArg (·.imK) h) (congrArg (·.re) h)

theorem ext_ofVec (h : ofVec u = ofVec v) : u = v :=
  Vec3.ext (congrArg (·.imI) h) (congrArg (·.imJ) h) (congrArg (·.imK) h)

variable (q r u v)

theorem value_mul : (q.mul r).value = q.value * r.value := by
  ext <;> simp [mul] <;> ring

theorem value_conjugate : q.conjugate.value = star q.value := by
  ext <;> simp [conjugate]

/-- The formula for rotations is the conjugation of the algebra. -/
theorem ofVec_rotate : ofVec (q.rotate v) = q.value * ofVec v * star q.value := by
  ext <;> simp [rotate, Vec3.add, Vec3.times, Vec3.map, Vec3.map₂, Vec3.dot, Vec3.cross] <;> ring

theorem ofVec_add : ofVec (u.add v) = ofVec u + ofVec v := by
  ext <;> simp [Vec3.add, Vec3.map₂]

theorem rotate_add : q.rotate (u.add v) = (q.rotate u).add (q.rotate v) := by
  apply ext_ofVec
  rw [ofVec_rotate, ofVec_add, ofVec_add, ofVec_rotate, ofVec_rotate, mul_add, add_mul]

theorem conjugate_conjugate : q.conjugate.conjugate = q := by
  apply ext_value
  rw [value_conjugate, value_conjugate, star_star]

def IsUnit (q : Quat ℚ) : Prop := q.x ^ 2 + q.y ^ 2 + q.z ^ 2 + q.w ^ 2 = 1

variable {q}

theorem IsUnit.conjugate (h : q.IsUnit) : q.conjugate.IsUnit := by
  unfold IsUnit at h ⊢
  simpa [Quat.conjugate] using h

theorem IsUnit.value_mul_star (h : q.IsUnit) : q.value * star q.value = 1 := by
  unfold IsUnit at h
  ext <;> simp
  · linear_combination h
  · ring
  · ring
  · ring

theorem IsUnit.mul_conjugate_mul (h : q.IsUnit) : q.mul (q.conjugate.mul r) = r := by
  apply ext_value
  rw [value_mul, value_mul, value_conjugate, ← mul_assoc, h.value_mul_star, one_mul]

theorem IsUnit.rotate_conjugate (h : q.IsUnit) : q.rotate (q.conjugate.rotate v) = v := by
  apply ext_ofVec
  rw [ofVec_rotate, ofVec_rotate, value_conjugate, star_star]
  calc q.value * (star q.value * ofVec v * q.value) * star q.value
      = (q.value * star q.value) * ofVec v * (q.value * star q.value) := by noncomm_ring
    _ = ofVec v := by rw [h.value_mul_star, one_mul, mul_one]

theorem IsUnit.conjugate_mul_mul (h : q.IsUnit) : q.conjugate.mul (q.mul r) = r := by
  have back := h.conjugate.mul_conjugate_mul r
  rwa [conjugate_conjugate] at back

theorem IsUnit.conjugate_rotate (h : q.IsUnit) : q.conjugate.rotate (q.rotate v) = v := by
  have back := h.conjugate.rotate_conjugate v
  rwa [conjugate_conjugate] at back

variable (q)

/-- The scale is the same in all directions, or the rotation is one about the vertical axis
and the scale is the same in all directions across it. -/
def Keeps (s : Vec3 ℚ) : Prop := s.x = s.y ∧ (s.y = s.z ∨ q.x = 0 ∧ q.y = 0)

variable {q} {s : Vec3 ℚ}

theorem Keeps.conjugate (h : q.Keeps s) : q.conjugate.Keeps s := by
  refine ⟨h.1, h.2.imp_right fun ⟨x, y⟩ => ⟨?_, ?_⟩⟩
  · exact neg_eq_zero.mpr x
  · exact neg_eq_zero.mpr y

theorem Keeps.reciprocal (h : q.Keeps s) : q.Keeps s.reciprocal := by
  simp only [Keeps, Vec3.reciprocal, Vec3.map]
  exact ⟨by rw [h.1], h.2.imp_left fun uniform => by rw [uniform]⟩

theorem Keeps.scaled_rotate (h : q.Keeps s) : s.scaled (q.rotate v) = q.rotate (s.scaled v) := by
  obtain ⟨across, uniform | ⟨x, y⟩⟩ := h
  · ext <;> simp [rotate, Vec3.scaled, Vec3.add, Vec3.times, Vec3.map, Vec3.map₂, Vec3.dot,
      Vec3.cross, across, uniform] <;> ring
  · ext <;> simp [rotate, Vec3.scaled, Vec3.add, Vec3.times, Vec3.map, Vec3.map₂, Vec3.dot,
      Vec3.cross, across, x, y] <;> ring

end Quat

namespace Pose

def linear (p : Pose ℚ) (v : Vec3 ℚ) : Vec3 ℚ := p.rotation.rotate (p.scale.scaled v)

theorem linear_add (p : Pose ℚ) (u v : Vec3 ℚ) :
    p.linear (u.add v) = (p.linear u).add (p.linear v) := by
  rw [linear, Vec3.scaled_add, Quat.rotate_add]
  rfl

theorem compose_eq (p b : Pose ℚ) : p.compose b = ⟨(p.linear b.position).add p.position,
    p.rotation.mul b.rotation, p.scale.scaled b.scale⟩ := rfl

theorem position_inverse (p : Pose ℚ) :
    p.inverse.position = p.inverse.linear p.position.neg := rfl

structure Undoable (p : Pose ℚ) : Prop where
  unit : p.rotation.IsUnit
  sized : p.scale.Sized
  keeps : p.rotation.Keeps p.scale

namespace Undoable

variable {p : Pose ℚ}

theorem linear_inverse (h : p.Undoable) (v : Vec3 ℚ) : p.linear (p.inverse.linear v) = v :=
  calc p.rotation.rotate (p.scale.scaled (p.rotation.conjugate.rotate
          (p.scale.reciprocal.scaled v)))
      = p.rotation.rotate (p.rotation.conjugate.rotate
          (p.scale.scaled (p.scale.reciprocal.scaled v))) := by
        rw [h.keeps.conjugate.scaled_rotate]
    _ = v := by rw [h.unit.rotate_conjugate, h.sized.scaled_reciprocal]

theorem inverse_linear (h : p.Undoable) (v : Vec3 ℚ) : p.inverse.linear (p.linear v) = v :=
  calc p.rotation.conjugate.rotate (p.scale.reciprocal.scaled
          (p.rotation.rotate (p.scale.scaled v)))
      = p.rotation.conjugate.rotate (p.rotation.rotate
          (p.scale.reciprocal.scaled (p.scale.scaled v))) := by
        rw [h.keeps.reciprocal.scaled_rotate]
    _ = v := by rw [h.unit.conjugate_rotate, h.sized.reciprocal_scaled]

theorem returned (h : p.Undoable) (b : Pose ℚ) : p.returned b = b := by
  refine Pose.ext ?_ (h.unit.mul_conjugate_mul _) (h.sized.scaled_reciprocal _)
  rw [Pose.returned, compose_eq, compose_eq, position_inverse, ← linear_add,
    h.linear_inverse, Vec3.add_neg_add]

theorem inverse_compose (h : p.Undoable) (b : Pose ℚ) : p.inverse.compose (p.compose b) = b := by
  refine Pose.ext ?_ (h.unit.conjugate_mul_mul _) (h.sized.reciprocal_scaled _)
  rw [compose_eq, compose_eq, position_inverse, ← linear_add, Vec3.add_add_neg,
    h.inverse_linear]

end Undoable

end Pose

/-- Where rotation and scale do not commute the inverse does not undo the pose: here the scale
is larger upward and the axis of the rotation is not upright. -/
example : ∃ p : Pose ℚ, p.rotation.IsUnit ∧ p.scale.Sized ∧
    p.compose (p.inverse.compose .identity) ≠ .identity := by
  refine ⟨⟨⟨1, 0, 0⟩, ⟨0, 3 / 5, 0, 4 / 5⟩, ⟨1, 1, 2⟩⟩, ?_, ⟨?_, ?_, ?_⟩, ?_⟩
  · norm_num [Quat.IsUnit]
  · norm_num
  · norm_num
  · norm_num
  · decide +kernel

end MarkerLattice
