import MarkerLattice.Binary32

/-!
The shortest decimal that reads back as a given single precision number: on
each grid of 1, 2, … decimal digits only the two neighbours of the number can
be nearest, the first grid with a neighbour inside the rounding interval wins,
and of two neighbours inside it the nearer one.
-/
namespace MarkerLattice

structure Decimal where
  coefficient : Nat
  exponent : Int
deriving DecidableEq, Repr

namespace Decimal

def crossed (d : Decimal) (num den : Nat) : Nat × Nat :=
  (num * Nat.pow 10 (-d.exponent).toNat,
    d.coefficient * Nat.pow 10 d.exponent.toNat * den)

def isAbove (d : Decimal) (num den : Nat) (orEqual : Bool) : Bool :=
  let (bound, point) := d.crossed num den
  bound < point || (orEqual && bound = point)

def isBelow (d : Decimal) (num den : Nat) (orEqual : Bool) : Bool :=
  let (bound, point) := d.crossed num den
  point < bound || (orEqual && point = bound)

def below (num den : Nat) (exponent : Int) : Decimal :=
  ⟨num * Nat.pow 10 (-exponent).toNat / (den * Nat.pow 10 exponent.toNat), exponent⟩

def next (d : Decimal) : Decimal := ⟨d.coefficient + 1, d.exponent⟩

def trimmed : Nat → Decimal → Decimal
  | 0, d => d
  | n + 1, d =>
    if d.coefficient ≠ 0 && d.coefficient % 10 = 0 then
      trimmed n ⟨d.coefficient / 10, d.exponent + 1⟩
    else d

end Decimal

def floorLog10 (num den : Nat) : Int :=
  let e := (floorLog2 num den * 1233).fdiv 4096
  if num * Nat.pow 10 (-e).toNat < den * Nat.pow 10 e.toNat then e - 1
  else if den * Nat.pow 10 (e + 1).toNat ≤ num * Nat.pow 10 (-(e + 1)).toNat then e + 1
  else e

structure RoundingInterval where
  low : Nat
  value : Nat
  high : Nat
  scale : Nat
  closed : Bool

/-- Half a quantum to each side; below a power of two the grid is twice as
fine. The ends belong to the even significands. -/
def RoundingInterval.of (d : Dyadic) : RoundingInterval :=
  let unit := Nat.pow 2 d.quantum.toNat
  let finer := d.significand = 0x800000 && -149 < d.quantum
  { low := (4 * d.significand - if finer then 1 else 2) * unit
    value := 4 * d.significand * unit
    high := (4 * d.significand + 2) * unit
    scale := 4 * d.denominator
    closed := d.significand % 2 = 0 }

namespace RoundingInterval

def contains (r : RoundingInterval) (d : Decimal) : Bool :=
  d.isAbove r.low r.scale r.closed && d.isBelow r.high r.scale r.closed

/-- Of the two neighbours of the value on a decimal grid, the one inside the
interval, and of two the nearer; the even one if both are as near. -/
def neighbour? (r : RoundingInterval) (exponent : Int) : Option Decimal :=
  let lower := Decimal.below r.value r.scale exponent
  let upper := lower.next
  match r.contains lower, r.contains upper with
  | true, true =>
    let (value, down) := lower.crossed r.value r.scale
    let (_, up) := upper.crossed r.value r.scale
    let below := value - down
    let above := up - value
    if below < above || (below = above && lower.coefficient % 2 = 0) then some lower
    else some upper
  | true, false => some lower
  | false, true => some upper
  | false, false => none

def search (r : RoundingInterval) : Nat → Int → Decimal
  | 0, exponent => Decimal.below r.value r.scale exponent
  | digits + 1, exponent =>
    match r.neighbour? exponent with
    | some d => d
    | none => search r digits (exponent - 1)

end RoundingInterval

namespace Binary32

/-- The shortest decimal that reads back as a positive magnitude. Nine digits
tell all single precision numbers apart. -/
def shortestDecimal (d : Dyadic) : Decimal :=
  let r := RoundingInterval.of d
  (r.search 9 (floorLog10 r.value r.scale)).trimmed 9

end Binary32

end MarkerLattice
