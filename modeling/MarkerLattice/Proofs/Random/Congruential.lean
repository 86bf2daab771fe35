import Mathlib
import MarkerLattice.Proofs.Binary32.Order
import MarkerLattice.Proofs.Random.Draws
import MarkerLattice.Random.Congruential

/-! The fractions of the congruential stream. The upper bits of a state behind the
exponent of one make a number from one up to two, and taking one off it is exact. -/
namespace MarkerLattice.Congruential

open Binary32 (Denotes Representable)

theorem denotes_behind_one {n : UInt32} (h : n.toNat < 2 ^ 23) :
    Denotes ⟨0x3f800000 ||| n⟩ (1 + n.toNat / 2 ^ 23) := by
  have bits : (0x3f800000 ||| n : UInt32).toNat = 0x3f800000 + n.toNat := by
    rw [UInt32.toNat_or]
    exact (Nat.two_pow_add_eq_or_of_lt h 127).symm
  have magnitude : Binary32.magnitudeBits ⟨0x3f800000 ||| n⟩ = 0x3f800000 + n.toNat := by
    rw [Binary32.magnitudeBits, bits]
    omega
  have finite : Binary32.isFinite ⟨0x3f800000 ||| n⟩ = true := by
    rw [Binary32.isFinite, magnitude]
    exact decide_eq_true (by omega)
  have positive : Binary32.negative ⟨0x3f800000 ||| n⟩ = false := by
    rw [Binary32.negative_eq, bits]
    exact decide_eq_false (by omega)
  -- Nothing of `n` reaches into the exponent, which stays that of one.
  have exponent : (0x3f800000 + n.toNat) / 0x800000 = 127 := by omega
  have fraction : (0x3f800000 + n.toNat) % 0x800000 = n.toNat := by omega
  have value : Binary32.value ⟨0x3f800000 ||| n⟩ = .finite false ⟨0x800000 + n.toNat, -23⟩ := by
    rw [Binary32.value_of_isFinite finite, positive, Binary32.magnitude, magnitude, exponent,
      fraction]
    rfl
  have denotes := Binary32.denotes_of_value value
  have sum : Binary32.signed false (Dyadic.toRat ⟨0x800000 + n.toNat, -23⟩) =
      1 + n.toNat / 2 ^ 23 := by
    simp only [Binary32.signed, Dyadic.toRat]
    push_cast
    norm_num
    ring
  rwa [sum] at denotes

theorem toNat_upper (state : UInt32) : (state >>> 9).toNat = state.toNat / 2 ^ 9 := by
  rw [UInt32.toNat_shiftRight, Nat.shiftRight_eq_div_pow]
  rfl

/-- A fraction is the upper 23 bits of a state in units of `2 ^ -23`. -/
theorem denotes_fractionOf (state : UInt32) :
    (fractionOf state).Denotes ((state.toNat / 2 ^ 9 : ℕ) / 2 ^ 23) := by
  have upper := toNat_upper state
  have small : state.toNat / 2 ^ 9 < 2 ^ 23 := by
    have := state.toNat_lt
    omega
  have behind := denotes_behind_one (n := state >>> 9) (by omega)
  rw [upper] at behind
  have fits : Representable ((state.toNat / 2 ^ 9 : ℕ) / 2 ^ 23) :=
    ⟨(state.toNat / 2 ^ 9 : ℕ), -23, by rw [div_eq_mul_inv]; rfl, by omega, by decide, by decide⟩
  have exact := add_sub_cancel_left (1 : ℚ) ((state.toNat / 2 ^ 9 : ℕ) / 2 ^ 23)
  rw [← exact] at fits ⊢
  exact behind.sub Binary32.denotes_one fits

theorem fractionOf_lt_one (state : UInt32) : (fractionOf state).lt .one = true := by
  have drawn := denotes_fractionOf state
  have one := Binary32.denotes_one
  have small : state.toNat / 2 ^ 9 < 2 ^ 23 := by
    have := state.toNat_lt
    omega
  rw [Binary32.lt_eq_not_le (Binary32.isNaN_of_isFinite drawn.finite)
    (Binary32.isNaN_of_isFinite one.finite), Bool.not_eq_true', Bool.eq_false_iff, ne_eq,
    Binary32.le_iff_toRat one.finite drawn.finite, drawn.toRat, one.toRat, not_le,
    div_lt_one (by positivity)]
  exact_mod_cast small

theorem zero_le_fractionOf (state : UInt32) : Binary32.zero.le (fractionOf state) = true := by
  have drawn := denotes_fractionOf state
  have zero := Binary32.denotes_zero
  rw [Binary32.le_iff_toRat zero.finite drawn.finite, zero.toRat, drawn.toRat]
  positivity

theorem nextFraction_eq (s : Congruential) :
    RandomStream.nextFraction s = (fractionOf s.advance.state, s.advance) := rfl

theorem fraction_lt_one (s : Congruential) (k : ℕ) :
    (RandomStream.fraction s k).lt .one = true := by
  rw [RandomStream.fraction, nextFraction_eq]
  exact fractionOf_lt_one _

end MarkerLattice.Congruential
