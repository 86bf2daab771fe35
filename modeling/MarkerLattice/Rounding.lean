/-!
Exact quotients rounded to a binary floating-point grid. Every arithmetic
operation of the library computes its exact result as a quotient of whole
numbers and rounds once with `BinaryGrid.nearest`.
-/
namespace MarkerLattice

structure Dyadic where
  significand : Nat
  quantum : Int
deriving DecidableEq, Repr

namespace Dyadic

def numerator (d : Dyadic) : Nat := d.significand * Nat.pow 2 d.quantum.toNat

def denominator (d : Dyadic) : Nat := Nat.pow 2 (-d.quantum).toNat

end Dyadic

/-- Significands of at most `precision` bits on quanta from `2 ^ minQuantum` up. -/
structure BinaryGrid where
  precision : Nat
  minQuantum : Int

def BinaryGrid.single : BinaryGrid := ⟨24, -149⟩

def BinaryGrid.double : BinaryGrid := ⟨53, -1074⟩

/-- The quotient to the nearest whole number; a half goes to the even one. -/
def roundedQuotient (num den : Nat) : Nat :=
  let q := num / den
  let twice := 2 * (num % den)
  if twice < den then q else if den < twice then q + 1 else q + q % 2

def floorLog2 (num den : Nat) : Int :=
  let e : Int := (num.log2 : Int) - den.log2
  if den * Nat.pow 2 e.toNat ≤ num * Nat.pow 2 (-e).toNat then e else e - 1

def BinaryGrid.quantumOf (grid : BinaryGrid) (num den : Nat) : Int :=
  max (floorLog2 num den - (grid.precision - 1)) grid.minQuantum

/-- The point of the grid nearest to `num / den`, ties to even. A carry may
give a significand of `2 ^ precision`, which names the same value. -/
def BinaryGrid.nearest (grid : BinaryGrid) (num den : Nat) : Dyadic :=
  if num = 0 then ⟨0, grid.minQuantum⟩
  else
    let q := grid.quantumOf num den
    ⟨roundedQuotient (num * Nat.pow 2 (-q).toNat) (den * Nat.pow 2 q.toNat), q⟩

end MarkerLattice
