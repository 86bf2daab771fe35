import MarkerLattice.Binary32

/-!
Streams of random draws. A pass asks a stream for raw words and for fractions;
indices, ranges, choices and shuffles are derived from fractions alone, so the
number of fractions drawn is the position in the stream.
-/
namespace MarkerLattice

/-- A source of draws with state `σ`. Fractions are meant to lie in `[0, 1)`,
but nothing below relies on it. -/
class RandomStream (σ : Type) where
  nextWord : σ → UInt32 × σ
  nextFraction : σ → Binary32 × σ

namespace RandomStream

variable {σ : Type} [RandomStream σ]

def indexOf (fraction : Binary32) (count : Nat) : Nat :=
  min (fraction * Binary32.ofNat count).toNat (count - 1)

/-- An index below `count`; `0`, without a draw, if there is none. -/
def nextIndex (count : Nat) (s : σ) : Nat × σ :=
  if count = 0 then (0, s)
  else
    let (fraction, s) := nextFraction s
    (indexOf fraction count, s)

/-- A whole number from `lo` to `hi`, both included. A range of at most one
number is answered without a draw. -/
def nextInRange (lo hi : Int) (s : σ) : Int × σ :=
  if hi ≤ lo then (lo, s)
  else
    let (i, s) := nextIndex ((hi - lo).toNat + 1) s
    (lo + i, s)

def nextBool (s : σ) : Bool × σ :=
  let (fraction, s) := nextFraction s
  (fraction.lt Binary32.half, s)

/-- Settles the positions from `i` down to `1`: each takes the element at a
random position not above it. -/
def shuffleFrom {α : Type} : Nat → Array α → σ → Array α × σ
  | 0, a, s => (a, s)
  | i + 1, a, s =>
    let (j, s) := nextIndex (i + 2) s
    shuffleFrom i (a.swapIfInBounds (i + 1) j) s

def shuffle {α : Type} (a : Array α) (s : σ) : Array α × σ :=
  shuffleFrom (a.size - 1) a s

end RandomStream

end MarkerLattice
