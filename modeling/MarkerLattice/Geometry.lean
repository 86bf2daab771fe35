import MarkerLattice.Binary32

/-!
Vectors, rotations and poses over any numbers. The program runs them on single
precision numbers; on exact numbers the same formulas are the geometry itself.
The order of the operations matters for rounded numbers and is part of each
definition.
-/
namespace MarkerLattice

class Scalar (α : Type) extends Add α, Sub α, Mul α, Div α, Neg α where
  zero : α
  one : α
  two : α
  isTiny : α → Bool

/-- Magnitudes up to `2 ^ -23` are tiny. -/
instance : Scalar Binary32 where
  zero := Binary32.zero
  one := Binary32.one
  two := Binary32.two
  isTiny x := x.abs.le ⟨0x34000000⟩

structure Vec2 (α : Type) where
  x : α
  y : α
deriving DecidableEq, Repr

structure Vec3 (α : Type) where
  x : α
  y : α
  z : α
deriving DecidableEq, Repr

structure Quat (α : Type) where
  x : α
  y : α
  z : α
  w : α
deriving DecidableEq, Repr

/-- Scales, then rotates, then moves. -/
structure Pose (α : Type) where
  position : Vec3 α
  rotation : Quat α
  scale : Vec3 α
deriving DecidableEq, Repr

variable {α : Type} [Scalar α]

namespace Vec3

def flat {α : Type} (v : Vec3 α) : Vec2 α := ⟨v.x, v.y⟩

def map {α : Type} (f : α → α) (v : Vec3 α) : Vec3 α := ⟨f v.x, f v.y, f v.z⟩

def map₂ {α : Type} (f : α → α → α) (v w : Vec3 α) : Vec3 α :=
  ⟨f v.x w.x, f v.y w.y, f v.z w.z⟩

def add (v w : Vec3 α) : Vec3 α := v.map₂ (· + ·) w

def sub (v w : Vec3 α) : Vec3 α := v.map₂ (· - ·) w

def scaled (v w : Vec3 α) : Vec3 α := v.map₂ (· * ·) w

def neg (v : Vec3 α) : Vec3 α := v.map (- ·)

def times (v : Vec3 α) (k : α) : Vec3 α := v.map (· * k)

def dot (v w : Vec3 α) : α := v.x * w.x + v.y * w.y + v.z * w.z

def cross (v w : Vec3 α) : Vec3 α :=
  ⟨v.y * w.z - v.z * w.y, v.z * w.x - v.x * w.z, v.x * w.y - v.y * w.x⟩

def zero : Vec3 α := ⟨Scalar.zero, Scalar.zero, Scalar.zero⟩

def one : Vec3 α := ⟨Scalar.one, Scalar.one, Scalar.one⟩

/-- One over each component; a tiny component becomes zero. -/
def reciprocal (v : Vec3 α) : Vec3 α :=
  v.map fun x => if Scalar.isTiny x then Scalar.zero else Scalar.one / x

end Vec3

namespace Quat

def identity : Quat α := ⟨Scalar.zero, Scalar.zero, Scalar.zero, Scalar.one⟩

def mul (l r : Quat α) : Quat α where
  x := (l.w * r.x + l.x * r.w) + (l.y * r.z - l.z * r.y)
  y := (l.w * r.y - l.x * r.z) + (l.y * r.w + l.z * r.x)
  z := (l.w * r.z + l.x * r.y) + (-(l.y * r.x) + l.z * r.w)
  w := (l.w * r.w - l.x * r.x) + (-(l.y * r.y) - l.z * r.z)

def conjugate (q : Quat α) : Quat α := ⟨-q.x, -q.y, -q.z, q.w⟩

/-- Turns a vector: with axis part `b`, `v (w² - b·b) + b (2 v·b) + 2 w (b × v)`. -/
def rotate (q : Quat α) (v : Vec3 α) : Vec3 α :=
  let b : Vec3 α := ⟨q.x, q.y, q.z⟩
  ((v.times (q.w * q.w - b.dot b)).add (b.times (v.dot b * Scalar.two))).add
    ((b.cross v).times (q.w * Scalar.two))

def turn (angle : Binary32) : Quat Binary32 :=
  let a := angle * Binary32.half
  ⟨Binary32.zero, Binary32.zero, a.sin, a.cos⟩

end Quat

namespace Pose

def ofPosition (position : Vec3 α) : Pose α := ⟨position, .identity, .one⟩

def identity : Pose α := ofPosition .zero

def compose (a b : Pose α) : Pose α where
  position := (a.rotation.rotate (a.scale.scaled b.position)).add a.position
  rotation := a.rotation.mul b.rotation
  scale := a.scale.scaled b.scale

/-- Undoes a pose whose scale is the same in all directions that it turns. Tiny
scales have no inverse and become zero. -/
def inverse (p : Pose α) : Pose α :=
  let scale := p.scale.reciprocal
  let rotation := p.rotation.conjugate
  { position := rotation.rotate (scale.scaled p.position.neg), rotation, scale }

end Pose

abbrev Location := Vec3 Binary32

end MarkerLattice
