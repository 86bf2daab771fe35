import MarkerLattice.Random

/-!
The linear congruential stream of the dungeon engine. Every draw of any kind
advances the state by one step.
-/
namespace MarkerLattice

structure Congruential where
  seed : UInt32
  state : UInt32
deriving DecidableEq, Repr

namespace Congruential

def ofSeed (seed : UInt32) : Congruential := ⟨seed, seed⟩

def step (state : UInt32) : UInt32 := state * 196314165 + 907633515

def advance (s : Congruential) : Congruential := { s with state := step s.state }

def reset (s : Congruential) : Congruential := ofSeed s.seed

/-- The upper 23 bits of a state behind the exponent of one, less one. -/
def fractionOf (state : UInt32) : Binary32 :=
  ⟨(0x3f800000 : UInt32) ||| (state >>> 9)⟩ - Binary32.one

instance : RandomStream Congruential where
  nextWord s := (s.advance.state, s.advance)
  nextFraction s := (fractionOf s.advance.state, s.advance)

end Congruential

end MarkerLattice
