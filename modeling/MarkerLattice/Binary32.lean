import MarkerLattice.Rounding

/-!
Single precision numbers by their 32 bits. An operation decodes its arguments,
computes the exact result and rounds it once, ties to even. The payload of a
NaN is kept as long as it is only stored, and every computed NaN is the same.
-/
namespace MarkerLattice

structure Binary32 where
  bits : UInt32
deriving DecidableEq, Repr

namespace Binary32

inductive Value where
  | nan
  | infinity (negative : Bool)
  | finite (negative : Bool) (magnitude : Dyadic)
deriving DecidableEq, Repr

def nan : Binary32 := ⟨0x7fc00000⟩
def zero : Binary32 := ⟨0⟩
def one : Binary32 := ⟨0x3f800000⟩
def two : Binary32 := ⟨0x40000000⟩
def half : Binary32 := ⟨0x3f000000⟩

def negative (x : Binary32) : Bool := 0x80000000 ≤ x.bits

def magnitudeBits (x : Binary32) : Nat := x.bits.toNat % 0x80000000

def isNaN (x : Binary32) : Bool := 0x7f800000 < x.magnitudeBits

def isFinite (x : Binary32) : Bool := x.magnitudeBits < 0x7f800000

/-- The magnitude of a finite number. Magnitudes below the smallest normal
number share its quantum. -/
def magnitude (x : Binary32) : Dyadic :=
  let exponent : Nat := x.magnitudeBits / 0x800000
  let fraction : Nat := x.magnitudeBits % 0x800000
  if exponent = 0 then ⟨fraction, -149⟩
  else ⟨0x800000 + fraction, (exponent : Int) - 150⟩

def value (x : Binary32) : Value :=
  if x.isNaN then .nan
  else if x.isFinite then .finite x.negative x.magnitude
  else .infinity x.negative

def ofParts (negative : Bool) (magnitude : Nat) : Binary32 :=
  ⟨UInt32.ofNat (if negative then 0x80000000 + magnitude else magnitude)⟩

def infinity (negative : Bool) : Binary32 := ofParts negative 0x7f800000

def signedZero (negative : Bool) : Binary32 := ofParts negative 0

/-- The bits of a magnitude on the grid; what lies beyond the largest finite
number is infinite. A carried significand moves up to the next exponent. -/
def packMagnitude (d : Dyadic) : Nat :=
  min ((d.quantum + 149).toNat * 0x800000 + d.significand) 0x7f800000

def ofQuotient (negative : Bool) (num den : Nat) : Binary32 :=
  ofParts negative (packMagnitude (BinaryGrid.single.nearest num den))

def ofDyadic (negative : Bool) (d : Dyadic) : Binary32 :=
  ofQuotient negative d.numerator d.denominator

def ofInt (n : Int) : Binary32 := ofQuotient (n < 0) n.natAbs 1

def ofNat (n : Nat) : Binary32 := ofQuotient false n 1

/-- The single precision number nearest to `± coefficient * 10 ^ exponent`.
Exponents far outside the range are answered without the power of ten. -/
def ofDecimal (negative : Bool) (coefficient : Nat) (exponent : Int) : Binary32 :=
  let size : Int := (coefficient.log2 : Int) / 3 + exponent
  if coefficient = 0 || size < -64 then signedZero negative
  else if 64 < exponent then infinity negative
  else ofQuotient negative (coefficient * Nat.pow 10 exponent.toNat)
    (Nat.pow 10 (-exponent).toNat)

def Value.signedOn (negative : Bool) (d : Dyadic) (quantum : Int) : Int :=
  let n : Int := d.significand * Nat.pow 2 (d.quantum - quantum).toNat
  if negative then -n else n

/-- The exact sum of two finite numbers, rounded. A zero sum is negative only
for two negative numbers. -/
def addFinite (s : Bool) (a : Dyadic) (t : Bool) (b : Dyadic) : Binary32 :=
  let q := min a.quantum b.quantum
  let sum := Value.signedOn s a q + Value.signedOn t b q
  if sum = 0 then signedZero (s && t) else ofDyadic (sum < 0) ⟨sum.natAbs, q⟩

def add (x y : Binary32) : Binary32 :=
  match x.value, y.value with
  | .nan, _ | _, .nan => nan
  | .infinity s, .infinity t => if s = t then infinity s else nan
  | .infinity s, .finite .. => infinity s
  | .finite .., .infinity t => infinity t
  | .finite s a, .finite t b => addFinite s a t b

/-- Flips the sign bit, of a NaN too. -/
def neg (x : Binary32) : Binary32 := ⟨x.bits ^^^ 0x80000000⟩

def sub (x y : Binary32) : Binary32 := x.add y.neg

def mul (x y : Binary32) : Binary32 :=
  match x.value, y.value with
  | .nan, _ | _, .nan => nan
  | .infinity s, .infinity t => infinity (s != t)
  | .infinity s, .finite t b => if b.significand = 0 then nan else infinity (s != t)
  | .finite s a, .infinity t => if a.significand = 0 then nan else infinity (s != t)
  | .finite s a, .finite t b =>
    ofDyadic (s != t) ⟨a.significand * b.significand, a.quantum + b.quantum⟩

def div (x y : Binary32) : Binary32 :=
  match x.value, y.value with
  | .nan, _ | _, .nan => nan
  | .infinity _, .infinity _ => nan
  | .infinity s, .finite t _ => infinity (s != t)
  | .finite s _, .infinity t => signedZero (s != t)
  | .finite s a, .finite t b =>
    if b.significand = 0 then
      if a.significand = 0 then nan else infinity (s != t)
    else
      ofQuotient (s != t) (a.significand * Nat.pow 2 (a.quantum - b.quantum).toNat)
        (b.significand * Nat.pow 2 (b.quantum - a.quantum).toNat)

instance : Add Binary32 := ⟨add⟩
instance : Sub Binary32 := ⟨sub⟩
instance : Mul Binary32 := ⟨mul⟩
instance : Div Binary32 := ⟨div⟩
instance : Neg Binary32 := ⟨neg⟩

def abs (x : Binary32) : Binary32 := ofParts false x.magnitudeBits

def rank (x : Binary32) : Int :=
  if x.negative then -(x.magnitudeBits : Int) else x.magnitudeBits

/-- Nothing is below or above a NaN. -/
def lt (x y : Binary32) : Bool := !x.isNaN && !y.isNaN && x.rank < y.rank

def le (x y : Binary32) : Bool := !x.isNaN && !y.isNaN && x.rank ≤ y.rank

/-- The lower of two numbers, the second one unless the first is below it. -/
def lower (x y : Binary32) : Binary32 := if x.lt y then x else y

def upper (x y : Binary32) : Binary32 := if y.lt x then x else y

def floorInt (negative : Bool) (d : Dyadic) : Int :=
  let n : Int := d.numerator
  (if negative then -n else n).fdiv d.denominator

def floor (x : Binary32) : Binary32 :=
  match x.value with
  | .finite s d =>
    let n := floorInt s d
    if n = 0 then signedZero s else ofInt n
  | _ => x

def wholePart (negative : Bool) (d : Dyadic) : Int :=
  let n : Int := (d.numerator / d.denominator : Nat)
  if negative then -n else n

/-- The whole part, held within `lo` and `hi`; a NaN counts as `0`. -/
def toIntWithin (lo hi : Int) (x : Binary32) : Int :=
  match x.value with
  | .nan => 0
  | .infinity s => if s then lo else hi
  | .finite s d => max lo (min hi (wholePart s d))

def toInt (x : Binary32) : Int := x.toIntWithin Int32.minValue.toInt Int32.maxValue.toInt

def toNat (x : Binary32) : Nat := (x.toIntWithin 0 (UInt64.size - 1)).toNat

/-- Sine and cosine of an angle in radians, as the platform computes them. -/
def sin (x : Binary32) : Binary32 := ⟨(Float32.ofBits x.bits).sin.toBits⟩

@[inherit_doc sin]
def cos (x : Binary32) : Binary32 := ⟨(Float32.ofBits x.bits).cos.toBits⟩

end Binary32

end MarkerLattice
