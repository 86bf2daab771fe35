import Mathlib
import MarkerLattice.Proofs.Binary32.Order

/-! How far a product or a quotient lies from the exact one. A normal result is off
by half a quantum at most, which is a part of `2 ^ -24` of it. -/
namespace MarkerLattice.Binary32

structure IsNormal (x : Binary32) : Prop where
  finite : x.isFinite = true
  long : 0x800000 ≤ x.magnitudeBits

/-- A normal number to which `r` rounds. -/
structure Rounds (x : Binary32) (r : ℚ) : Prop where
  normal : x.IsNormal
  close : |x.toRat - r| ≤ 2 ^ x.magnitude.quantum / 2

theorem abs_signed (s : Bool) (r : ℚ) : |signed s r| = |r| := by
  cases s <;> simp [signed]

theorem signed_sub (s : Bool) (a b : ℚ) : signed s (a - b) = signed s a - signed s b := by
  cases s <;> simp [signed, sub_eq_add_neg, add_comm]

theorem signed_mul (s t : Bool) (a b : ℚ) :
    signed (s != t) (a * b) = signed s a * signed t b := by
  cases s <;> cases t <;> simp [signed]

theorem abs_toRat (x : Binary32) : |x.toRat| = x.magnitude.toRat := by
  rw [toRat, abs_signed, abs_of_nonneg (toRat_nonneg _)]

theorem IsNormal.significand {x : Binary32} (h : x.IsNormal) :
    2 ^ 23 ≤ x.magnitude.significand ∧ x.magnitude.significand < 2 ^ 24 := by
  have long := h.long
  obtain ⟨⟨lt, low, full⟩, bits⟩ := x.canonical_magnitude
  simp only [BinaryGrid.single] at lt low full
  omega

theorem IsNormal.le_toRat {x : Binary32} (h : x.IsNormal) :
    (2 : ℚ) ^ (-126 : ℤ) ≤ x.magnitude.toRat := by
  have full : (2 : ℚ) ^ 23 ≤ x.magnitude.significand := by exact_mod_cast h.significand.1
  have low : -149 ≤ x.magnitude.quantum := x.canonical_magnitude.1.low
  have step : (2 : ℚ) ^ (-149 : ℤ) ≤ 2 ^ x.magnitude.quantum :=
    zpow_le_zpow_right₀ one_le_two low
  calc (2 : ℚ) ^ (-126 : ℤ) = 2 ^ 23 * 2 ^ (-149 : ℤ) := by norm_num
    _ ≤ x.magnitude.significand * 2 ^ x.magnitude.quantum := by gcongr

section Parts

variable {negative : Bool} {num den : ℕ}

theorem magnitude_ofQuotient (hd : 0 < den) (h : (ofQuotient negative num den).IsNormal) :
    (ofQuotient negative num den).magnitude.toRat = (BinaryGrid.single.nearest num den).toRat ∧
      (BinaryGrid.single.nearest num den).quantum ≤
        (ofQuotient negative num den).magnitude.quantum := by
  have small := (packMagnitude_le (BinaryGrid.single.nearest num den)).trans_lt
    (show 0x7f800000 < 0x80000000 by decide)
  have packed : (ofQuotient negative num den).magnitudeBits =
      packMagnitude (BinaryGrid.single.nearest num den) := magnitudeBits_ofParts negative small
  have below : (ofQuotient negative num den).magnitudeBits < 0x7f800000 := by
    simpa [isFinite] using h.finite
  have fits := BinaryGrid.single.significand_nearest_le num hd
  have low := BinaryGrid.single.minQuantum_le_nearest num den
  have full := BinaryGrid.single.le_significand_nearest num (k := 23) rfl hd
  obtain ⟨lower, upper⟩ := h.significand
  obtain ⟨canonical, bits⟩ := (ofQuotient negative num den).canonical_magnitude
  have least := canonical.low
  rw [packed] at below bits
  unfold packMagnitude at below bits
  unfold Dyadic.toRat
  generalize (ofQuotient negative num den).magnitude = x at *
  generalize BinaryGrid.single.nearest num den = d at *
  simp only [BinaryGrid.single] at fits low full least
  obtain same | carried : d.quantum = x.quantum ∧ d.significand = x.significand ∨
      x.quantum = d.quantum + 1 ∧ d.significand = 2 * x.significand := by omega
  · rw [same.1, same.2]
    exact ⟨rfl, Int.le_refl _⟩
  · rw [carried.1, carried.2, zpow_add_one₀ two_ne_zero]
    refine ⟨?_, by omega⟩
    push_cast
    ring

theorem rounds_ofQuotient (hd : 0 < den) (h : (ofQuotient negative num den).IsNormal) :
    (ofQuotient negative num den).Rounds (signed negative (num / den)) where
  normal := h
  close := by
    obtain ⟨value, quantum⟩ := magnitude_ofQuotient hd h
    have small := (packMagnitude_le (BinaryGrid.single.nearest num den)).trans_lt
      (show 0x7f800000 < 0x80000000 by decide)
    have sign : (ofQuotient negative num den).negative = negative := negative_ofParts negative small
    rw [toRat, sign, ← signed_sub, abs_signed, value]
    calc |(BinaryGrid.single.nearest num den).toRat - num / den|
        ≤ 2 ^ (BinaryGrid.single.nearest num den).quantum / 2 :=
          BinaryGrid.single.nearest_error num hd
      _ ≤ _ := by
        gcongr
        exact one_le_two

theorem isNormal_ofQuotient (hd : 0 < den) (low : (1 : ℚ) / 4 ≤ num / den)
    (high : (num : ℚ) / den ≤ 2 ^ 22) : (ofQuotient negative num den).IsNormal := by
  have first : packMagnitude (BinaryGrid.single.nearest 1 4) = 0x3e800000 := by decide +kernel
  have last : packMagnitude (BinaryGrid.single.nearest 4194304 1) = 0x4a800000 := by
    decide +kernel
  have above : packMagnitude (BinaryGrid.single.nearest 1 4) ≤
      packMagnitude (BinaryGrid.single.nearest num den) :=
    packMagnitude_mono (by decide) hd (by simpa using low)
  have below : packMagnitude (BinaryGrid.single.nearest num den) ≤
      packMagnitude (BinaryGrid.single.nearest 4194304 1) :=
    packMagnitude_mono hd (by decide) (high.trans (by norm_num))
  rw [first] at above
  rw [last] at below
  have bits := magnitudeBits_ofParts negative (below.trans_lt (by decide))
  refine ⟨?_, ?_⟩
  · simp only [isFinite, ofQuotient, bits, decide_eq_true_eq]
    omega
  · rw [ofQuotient, bits]
    omega

end Parts

section Operations

variable {x y c : Binary32}

theorem mul_eq_ofQuotient (hx : x.isFinite = true) (hy : y.isFinite = true) :
    ∃ num den : ℕ, 0 < den ∧ x * y = ofQuotient (x.negative != y.negative) num den ∧
      (num : ℚ) / den = x.magnitude.toRat * y.magnitude.toRat := by
  obtain ⟨d, hd⟩ : ∃ d : Dyadic, d = ⟨x.magnitude.significand * y.magnitude.significand,
    x.magnitude.quantum + y.magnitude.quantum⟩ := ⟨_, rfl⟩
  refine ⟨d.numerator, d.denominator, d.denominator_pos, ?_, ?_⟩
  · change Binary32.mul x y = _
    simp only [Binary32.mul, value_of_isFinite hx, value_of_isFinite hy, hd, ofDyadic]
  · rw [d.numerator_div_denominator, hd]
    simp only [Dyadic.toRat, zpow_add₀ (two_ne_zero (α := ℚ))]
    push_cast
    ring

theorem rounds_mul (hx : x.isFinite = true) (hy : y.isFinite = true) (h : (x * y).IsNormal) :
    (x * y).Rounds (x.toRat * y.toRat) := by
  obtain ⟨num, den, hd, product, value⟩ := mul_eq_ofQuotient hx hy
  rw [product] at h ⊢
  have rounds := rounds_ofQuotient hd h
  rwa [value, signed_mul] at rounds

theorem rounds_div (hx : x.isFinite = true) (hc : c.isFinite = true) (positive : zero.lt c = true)
    (low : 1 / 4 ≤ |x.toRat| / c.toRat) (high : |x.toRat| / c.toRat ≤ 2 ^ 22) :
    (x / c).Rounds (x.toRat / c.toRat) := by
  obtain ⟨sign, nonzero, -⟩ := positive_of_lt positive
  obtain ⟨num, den, hd, quotient, value⟩ := div_eq_ofQuotient hx hc sign nonzero
  have divisor : c.toRat = c.magnitude.toRat := by rw [toRat, sign]; rfl
  rw [abs_toRat, divisor, ← value] at low high
  have normal : (ofQuotient x.negative num den).IsNormal := isNormal_ofQuotient hd low high
  have rounds := rounds_ofQuotient hd normal
  rwa [← quotient, value, signed_div, ← divisor] at rounds

end Operations

namespace Rounds

variable {x : Binary32} {r : ℚ}

/-- The relative error of a normal result. -/
theorem error (h : x.Rounds r) : |x.toRat - r| ≤ |x.toRat| / 2 ^ 24 := by
  have full : ((2 ^ 23 : ℕ) : ℚ) ≤ x.magnitude.significand := by
    exact_mod_cast h.normal.significand.1
  rw [abs_toRat, Dyadic.toRat]
  calc |x.toRat - r| ≤ 2 ^ x.magnitude.quantum / 2 := h.close
    _ = (2 ^ 23 : ℕ) * 2 ^ x.magnitude.quantum / 2 ^ 24 := by push_cast; ring
    _ ≤ x.magnitude.significand * 2 ^ x.magnitude.quantum / 2 ^ 24 := by gcongr

/-- A result is not below a number of single precision that the exact one reaches, be
it in range or not. -/
theorem le_abs (h : x.Rounds r) {m : ℕ} {p : ℤ} (short : m < 2 ^ 24)
    (le : (m : ℚ) * 2 ^ p ≤ |r|) : m * 2 ^ p ≤ |x.toRat| := by
  by_contra above
  rw [not_le, abs_toRat, Dyadic.toRat] at above
  obtain ⟨full, -⟩ := h.normal.significand
  have close := h.close
  rw [abs_sub_comm] at close
  have far : |r| - |x.toRat| ≤ 2 ^ x.magnitude.quantum / 2 :=
    (abs_sub_abs_le_abs_sub r x.toRat).trans close
  rw [abs_toRat, Dyadic.toRat] at far
  generalize x.magnitude.significand = k at *
  generalize x.magnitude.quantum = q at *
  have higher : (2 : ℚ) ^ (q + 23) < 2 ^ (p + 24) := by
    have low : (2 : ℚ) ^ 23 ≤ k := by exact_mod_cast full
    have high : (m : ℚ) ≤ 2 ^ 24 := by exact_mod_cast short.le
    calc (2 : ℚ) ^ (q + 23) = 2 ^ 23 * 2 ^ q := by rw [zpow_add₀ two_ne_zero, mul_comm]; norm_cast
      _ ≤ k * 2 ^ q := by gcongr
      _ < m * 2 ^ p := above
      _ ≤ 2 ^ 24 * 2 ^ p := by gcongr
      _ = 2 ^ (p + 24) := by rw [zpow_add₀ two_ne_zero, mul_comm]; norm_cast
  have order := (zpow_lt_zpow_iff_right₀ (one_lt_two (α := ℚ))).mp higher
  -- On the quantum of the result the number is whole, so it lies a whole quantum above.
  obtain ⟨n, hn⟩ := Int.eq_ofNat_of_zero_le (show 0 ≤ p - q by omega)
  have whole : (m : ℚ) * 2 ^ p = (m * 2 ^ n : ℕ) * 2 ^ q := by
    rw [show p = n + q by omega, zpow_add₀ two_ne_zero]
    push_cast
    rw [zpow_natCast, mul_assoc]
  rw [whole] at above le
  have step : (0 : ℚ) < 2 ^ q := by positivity
  have next : ((k + 1 : ℕ) : ℚ) ≤ (m * 2 ^ n : ℕ) := by
    exact_mod_cast lt_of_mul_lt_mul_right above step.le
  have reached : ((k + 1 : ℕ) : ℚ) * 2 ^ q ≤ |r| :=
    (mul_le_mul_of_nonneg_right next step.le).trans le
  push_cast at reached
  linarith

end Rounds

end MarkerLattice.Binary32
