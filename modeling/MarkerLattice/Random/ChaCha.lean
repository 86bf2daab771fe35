import MarkerLattice.Random

/-!
The general purpose stream: the words of the ChaCha cipher with twelve rounds,
under a key that is expanded from a 64 bit seed, a block counter from zero and
an empty nonce.
-/
namespace MarkerLattice

abbrev ChaChaBlock := Vector UInt32 16

structure ChaCha where
  key : Vector UInt32 8
  position : Nat
  block : Nat
  words : ChaChaBlock

namespace ChaCha

def rotateLeft (w : UInt32) (n : UInt32) : UInt32 := (w <<< n) ||| (w >>> (32 - n))

def rotateRight (w : UInt32) (n : UInt32) : UInt32 :=
  (w >>> n) ||| (w <<< ((32 - n) % 32))

def quarterRound (v : ChaChaBlock) (a b c d : Fin 16) : ChaChaBlock :=
  let v := v.set a (v[a] + v[b])
  let v := v.set d (rotateLeft (v[d] ^^^ v[a]) 16)
  let v := v.set c (v[c] + v[d])
  let v := v.set b (rotateLeft (v[b] ^^^ v[c]) 12)
  let v := v.set a (v[a] + v[b])
  let v := v.set d (rotateLeft (v[d] ^^^ v[a]) 8)
  let v := v.set c (v[c] + v[d])
  v.set b (rotateLeft (v[b] ^^^ v[c]) 7)

def doubleRound (v : ChaChaBlock) : ChaChaBlock :=
  let v := quarterRound v 0 4 8 12
  let v := quarterRound v 1 5 9 13
  let v := quarterRound v 2 6 10 14
  let v := quarterRound v 3 7 11 15
  let v := quarterRound v 0 5 10 15
  let v := quarterRound v 1 6 11 12
  let v := quarterRound v 2 7 8 13
  quarterRound v 3 4 9 14

/-- The start of a block: constants, key, 64 bit counter, empty nonce. -/
def initialBlock (key : Vector UInt32 8) (block : Nat) : ChaChaBlock :=
  #v[0x61707865, 0x3320646e, 0x79622d32, 0x6b206574,
     key[0], key[1], key[2], key[3], key[4], key[5], key[6], key[7],
     UInt32.ofNat block, UInt32.ofNat (block / UInt32.size), 0, 0]

def blockWords (key : Vector UInt32 8) (block : Nat) : ChaChaBlock :=
  let start := initialBlock key block
  Vector.zipWith (· + ·) start (Nat.repeat doubleRound 6 start)

def seedStep (state : UInt64) : UInt64 :=
  state * 6364136223846793005 + 11634580027462260723

def seedWord (state : UInt64) : UInt32 :=
  rotateRight (((state >>> 18) ^^^ state) >>> 27).toUInt32 (state >>> 59).toUInt32

/-- The key of a seed: eight words, one generator step before each. -/
def keyOfSeed (seed : UInt64) : Vector UInt32 8 :=
  Vector.ofFn fun i => seedWord (Nat.repeat seedStep (i.val + 1) seed)

def ofSeed (seed : UInt64) : ChaCha :=
  let key := keyOfSeed seed
  { key, position := 0, block := 0, words := blockWords key 0 }

def draw (s : ChaCha) : UInt32 × ChaCha :=
  let block := s.position / 16
  let words := if block = s.block then s.words else blockWords s.key block
  let index : Fin 16 := ⟨s.position % 16, Nat.mod_lt _ (by decide)⟩
  (words[index], { s with position := s.position + 1, block, words })

/-- The upper 24 bits of a word as a multiple of `2 ^ -24`. -/
def fractionOf (word : UInt32) : Binary32 :=
  Binary32.ofDyadic false ⟨(word >>> 8).toNat, -24⟩

instance : RandomStream ChaCha where
  nextWord := draw
  nextFraction s :=
    let (word, s) := s.draw
    (fractionOf word, s)

end ChaCha

end MarkerLattice
