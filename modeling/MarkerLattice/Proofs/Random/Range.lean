import Mathlib
import MarkerLattice.Proofs.Random.Congruential
import MarkerLattice.Proofs.Random.Requests

/-! Draws within bounds. Nothing is asked of the fractions of a stream: they may be
negative, one or more, infinite or undefined. An index stays below its count all the same
and a number from a range in the range, and where the range fits in words of 32 bits,
arithmetic that wraps around finds the same number. The fractions of the congruential
stream are exact. -/
namespace MarkerLattice.RandomStream

section Bounds

variable {σ : Type} [RandomStream σ]

theorem nextIndex_of_pos (s : σ) {count : ℕ} (pos : 0 < count) :
    nextIndex count s = (indexOf (nextFraction s).1 count, skip s) := if_neg pos.ne'

theorem nextIndex_lt (s : σ) {count : ℕ} (pos : 0 < count) : (nextIndex count s).1 < count := by
  obtain ⟨n, rfl⟩ := Nat.exists_eq_succ_of_ne_zero pos.ne'
  exact Nat.lt_succ_of_le (indexOf_le _ n)

example : indexOf (.infinity false) 5 = 4 ∧ indexOf .nan 5 = 0 := by decide

theorem nextInRange_of_le (s : σ) {lo hi : ℤ} (single : hi ≤ lo) :
    nextInRange lo hi s = (lo, s) := if_pos single

theorem nextInRange_of_lt (s : σ) {lo hi : ℤ} (several : lo < hi) :
    nextInRange lo hi s = (lo + (nextIndex ((hi - lo).toNat + 1) s).1, skip s) := by
  rw [nextInRange, if_neg several.not_ge]
  rfl

theorem nextInRange_mem (s : σ) {lo hi : ℤ} (le : lo ≤ hi) :
    (nextInRange lo hi s).1 ∈ Set.Icc lo hi := by
  obtain rfl | several := le.eq_or_lt
  · simp [nextInRange_of_le]
  · have below := nextIndex_lt s (hi - lo).toNat.add_one_pos
    rw [nextInRange_of_lt s several, Set.mem_Icc]
    omega

/-- A draw from a range in words of 32 bits. The numbers of the range are counted in a
word of 64. -/
def nextWordInRange (lo hi : Int32) (s : σ) : Int32 × σ :=
  if hi ≤ lo then (lo, s)
  else
    let (i, s) := nextIndex ((hi - lo).toInt64.toUInt64 + 1).toNat s
    (lo + Int32.ofNat i, s)

theorem toNat_span {lo hi : Int32} (lt : lo.toInt < hi.toInt)
    (fits : hi.toInt - lo.toInt < 2 ^ 31) :
    ((hi - lo).toInt64.toUInt64 + 1).toNat = (hi.toInt - lo.toInt).toNat + 1 := by
  have difference : (hi - lo).toInt64.toInt = hi.toInt - lo.toInt := by
    rw [Int32.toInt_toInt64, Int32.toInt_sub, Int.bmod_eq_of_le_mul_two]
    · omega
    · omega
  have positive : 0 ≤ (hi - lo).toInt64 := by
    rw [Int64.le_iff_toInt_le, difference, Int64.toInt_zero]
    omega
  rw [UInt64.toNat_add, Int64.toNat_toUInt64_of_le positive, ← Int64.toNat_toInt, difference,
    UInt64.toNat_one]
  omega

theorem nextWordInRange_eq (s : σ) {lo hi : Int32} (fits : hi.toInt - lo.toInt < 2 ^ 31) :
    Prod.map Int32.toInt id (nextWordInRange lo hi s) = nextInRange lo.toInt hi.toInt s := by
  have low := Int32.le_toInt lo
  have high := Int32.toInt_lt hi
  obtain single | several := le_or_gt hi.toInt lo.toInt
  · rw [nextWordInRange, if_pos (Int32.le_iff_toInt_le.mpr single), nextInRange_of_le s single]
    rfl
  · have below := nextIndex_lt s (hi.toInt - lo.toInt).toNat.add_one_pos
    have drawn := nextIndex_of_pos s (hi.toInt - lo.toInt).toNat.add_one_pos
    -- The index is at most the difference of the ends, so it is a word and so is the sum.
    rw [nextWordInRange, if_neg (mt Int32.le_iff_toInt_le.mp several.not_ge),
      toNat_span several fits, nextInRange_of_lt s several, drawn]
    rw [drawn] at below
    refine Prod.ext ?_ rfl
    dsimp only [Prod.map] at below ⊢
    rw [Int32.toInt_add, Int32.toInt_ofNat_of_lt (by omega), Int.bmod_eq_of_le_mul_two]
    · omega
    · omega

theorem drawn_nextIndex (s : σ) {count : ℕ} (pos : 0 < count) :
    (nextIndex count (Counted.start s)).2.drawn = 1 := by
  rw [nextIndex_of_pos _ pos]
  exact (Counted.start s).drawn_skip 1

theorem drawn_nextInRange (s : σ) (lo hi : ℤ) :
    (nextInRange lo hi (Counted.start s)).2.drawn = if lo < hi then 1 else 0 := by
  obtain single | several := le_or_gt hi lo
  · rw [nextInRange_of_le _ single, if_neg single.not_gt]
    rfl
  · rw [nextInRange_of_lt _ several, if_pos several]
    exact (Counted.start s).drawn_skip 1

/-- Whatever the fractions of a stream are, an index lies below its count and takes one
draw, and a number from a range lies in the range and takes one draw if there is more than
one to choose from. In words of 32 bits the number is the same wherever the difference of
the ends is such a word. A fraction of the congruential stream is the number that the upper
23 bits of its new state make behind the point, at least zero and below one. -/
theorem draws_bounded :
    (∀ (s : σ) (count : ℕ), 0 < count →
      (nextIndex count s).1 < count ∧ (nextIndex count s).2 = skip s ∧
      (nextIndex count (Counted.start s)).2.drawn = 1) ∧
    (∀ (s : σ) (lo hi : ℤ), lo ≤ hi →
      (nextInRange lo hi s).1 ∈ Set.Icc lo hi ∧
      (nextInRange lo hi (Counted.start s)).2.drawn = if lo < hi then 1 else 0) ∧
    (∀ (s : σ) (lo hi : Int32), lo ≤ hi → hi.toInt - lo.toInt < 2 ^ 31 →
      lo ≤ (nextWordInRange lo hi s).1 ∧ (nextWordInRange lo hi s).1 ≤ hi ∧
      Prod.map Int32.toInt id (nextWordInRange lo hi s) = nextInRange lo.toInt hi.toInt s) ∧
    ∀ s : Congruential, (nextFraction s).2 = s.advance ∧
      (nextFraction s).1.Denotes ((s.advance.state >>> 9).toNat / 2 ^ 23) ∧
      Binary32.zero.le (nextFraction s).1 = true ∧ (nextFraction s).1.lt .one = true := by
  refine ⟨fun s count pos => ?_, fun s lo hi le => ?_, fun s lo hi le fits => ?_, fun s => ?_⟩
  · exact ⟨nextIndex_lt s pos, congrArg Prod.snd (nextIndex_of_pos s pos), drawn_nextIndex s pos⟩
  · exact ⟨nextInRange_mem s le, drawn_nextInRange s lo hi⟩
  · have same := nextWordInRange_eq s fits
    have within := nextInRange_mem s (Int32.le_iff_toInt_le.mp le)
    rw [← same] at within
    exact ⟨Int32.le_iff_toInt_le.mpr within.1, Int32.le_iff_toInt_le.mpr within.2, same⟩
  · rw [Congruential.nextFraction_eq, Congruential.toNat_upper]
    exact ⟨rfl, Congruential.denotes_fractionOf _, Congruential.zero_le_fractionOf _,
      Congruential.fractionOf_lt_one _⟩

end Bounds

structure Constant where
  number : Binary32

instance : RandomStream Constant where
  nextWord s := (0, s)
  nextFraction s := (s.number, s)

theorem draws_bounded_infinite :
    0 < 2 ^ 24 + 1 ∧
    (nextIndex (2 ^ 24 + 1) (Constant.mk (.infinity false))).1 < 2 ^ 24 + 1 ∧
    (nextInRange (-5) (2 ^ 24) (Constant.mk .nan)).1 ∈ Set.Icc (-5) (2 ^ 24) ∧
    (nextInRange (-5) (2 ^ 24) (Counted.start (Constant.mk .nan))).2.drawn = 1 ∧
    (nextWordInRange Int32.minValue (-1) (Constant.mk (.infinity false))).1 ≤ -1 := by
  obtain ⟨indices, ranges, words, -⟩ := draws_bounded (σ := Constant)
  have several := ranges (Constant.mk .nan) (-5) (2 ^ 24) (by decide)
  exact ⟨by decide, (indices _ _ (by decide)).1, several.1, several.2,
    (words _ _ _ (by decide) (by decide)).2.1⟩

end MarkerLattice.RandomStream
