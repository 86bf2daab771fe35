import Mathlib
import MarkerLattice.Lattice.Level
import MarkerLattice.Proofs.Binary32.Whole

/-! Rounding halves up adds a half, which rounds, and takes the floor. The sum reaches no
whole number that the exact one does not reach, but for the number just below a half; and
from `2 ^ 23` on, where all numbers are whole, it may be a tie. -/
namespace MarkerLattice.Binary32

variable {x : Binary32} {r : ℚ}

section Small

theorem natAbs_floor_add_half_le {b : ℕ} (h : |r| ≤ b) : ⌊r + 1 / 2⌋.natAbs ≤ b := by
  obtain ⟨lower, upper⟩ := abs_le.mp h
  have low : -(b : ℤ) ≤ ⌊r + 1 / 2⌋ := Int.le_floor.mpr (by push_cast; linarith)
  have high : ⌊r + 1 / 2⌋ < b + 1 := Int.floor_lt.mpr (by push_cast; linarith)
  omega

/-- On the grid of the unit `1 / 2 ^ (j + 1)`, the last point before the next whole number
is as short as the point given. -/
theorem natAbs_last_lt {m n : ℤ} {j : ℕ} (short : m.natAbs < 2 ^ 24) (away : n ≠ 0)
    (le : n * 2 ^ (j + 1) ≤ m) (lt : m < (n + 1) * 2 ^ (j + 1)) :
    ((n + 1) * 2 ^ (j + 1) - 1).natAbs < 2 ^ 24 := by
  have unit : (0 : ℤ) < 2 ^ (j + 1) := by positivity
  rcases lt_or_gt_of_ne away with below | above
  · have last : (n + 1) * 2 ^ (j + 1) ≤ 0 :=
      mul_nonpos_of_nonpos_of_nonneg (by omega) unit.le
    omega
  · have once : (2 : ℤ) ^ (j + 1) ≤ n * 2 ^ (j + 1) := le_mul_of_one_le_left unit.le (by omega)
    have size : (2 : ℤ) ^ (j + 1) < 2 ^ 24 := by omega
    obtain ⟨i, hi⟩ := Nat.exists_eq_add_of_lt
      ((pow_lt_pow_iff_right₀ (by decide : (1 : ℤ) < 2)).mp size)
    have split : (2 : ℤ) ^ (i + 1) * 2 ^ (j + 1) = 2 ^ 24 := by
      rw [← pow_add, hi]
      congr 1
      omega
    have few : n < 2 ^ (i + 1) := by
      apply lt_of_mul_lt_mul_right _ unit.le
      omega
    have last : (n + 1) * 2 ^ (j + 1) ≤ 2 ^ (i + 1) * 2 ^ (j + 1) :=
      mul_le_mul_of_nonneg_right (by omega) unit.le
    have pos : 0 < (n + 1) * 2 ^ (j + 1) := mul_pos (by omega) unit
    omega

theorem exists_above_of_fine {m n : ℤ} {j : ℕ} (value : r = m / 2 ^ (j + 1))
    (short : m.natAbs < 2 ^ 24) (low : j < 149) (away : n ≠ 0) (le : n ≤ r)
    (far : r + 1 / 2 < n + 1) :
    ∃ hi, Representable hi ∧ r + 1 / 2 ≤ hi ∧ hi < n + 1 := by
  have unit : (0 : ℚ) < 2 ^ (j + 1) := by positivity
  have sum : r + 1 / 2 = (m + 2 ^ j : ℤ) / 2 ^ (j + 1) := by
    rw [value]
    push_cast
    field_simp
    ring
  have whole : n * 2 ^ (j + 1) ≤ m := by
    rw [value, le_div_iff₀ unit] at le
    exact_mod_cast le
  have next : m + 2 ^ j < (n + 1) * 2 ^ (j + 1) := by
    rw [sum, div_lt_iff₀ unit] at far
    exact_mod_cast far
  have step : (0 : ℤ) < 2 ^ j := by positivity
  refine ⟨((n + 1) * 2 ^ (j + 1) - 1 : ℤ) / 2 ^ (j + 1),
    ⟨(n + 1) * 2 ^ (j + 1) - 1, -(j + 1 : ℤ), ?_, natAbs_last_lt short away whole (by omega),
      by omega, by omega⟩, ?_, ?_⟩
  · rw [zpow_neg, div_eq_mul_inv]
    norm_cast
  · rw [sum, div_le_div_iff_of_pos_right unit]
    exact_mod_cast (show m + 2 ^ j ≤ (n + 1) * 2 ^ (j + 1) - 1 by omega)
  · rw [div_lt_iff₀ unit]
    push_cast
    linarith

/-- Between a sum and the whole number above it there is a number of single precision. -/
theorem exists_above_half (fits : Representable r) (small : |r| < 2 ^ 23)
    (apart : r < 1 / 2 → r ≤ 1 / 2 - 1 / 2 ^ 24) :
    ∃ hi, Representable hi ∧ r + 1 / 2 ≤ hi ∧ hi < ⌊r + 1 / 2⌋ + 1 := by
  have near : (⌊r + 1 / 2⌋ : ℚ) ≤ r + 1 / 2 := Int.floor_le _
  have far : r + 1 / 2 < ⌊r + 1 / 2⌋ + 1 := Int.lt_floor_add_one _
  generalize ⌊r + 1 / 2⌋ = n at *
  obtain ⟨m, p, value, short, low, top⟩ := fits
  rcases lt_or_ge p (-1) with fine | coarse
  · obtain ⟨j, hj⟩ := Int.eq_ofNat_of_zero_le (show 0 ≤ -p - 1 by omega)
    have value : r = m / 2 ^ (j + 1) := by
      rw [value, show p = -(j + 1 : ℤ) by omega, zpow_neg, div_eq_mul_inv]
      norm_cast
    rcases lt_or_ge r n with below | above
    -- The sum is below the middle to the next whole number.
    · refine ⟨(2 * n + 1 : ℤ) / 2, representable_half ?_, ?_, ?_⟩
      · have coarser : (2 : ℚ) ^ 2 ≤ 2 ^ (j + 1) := pow_le_pow_right₀ one_le_two (by omega)
        have numerator := abs_intCast_le short.le
        have size : |r| ≤ 2 ^ 22 := by
          rw [value, abs_div, abs_of_pos (by positivity : (0 : ℚ) < 2 ^ (j + 1)),
            div_le_iff₀ (by positivity)]
          push_cast at numerator
          linarith
        obtain ⟨least, most⟩ := abs_le.mp size
        have lower : -2 ^ 22 - 1 < n := by
          exact_mod_cast (by linarith : (-2 ^ 22 - 1 : ℚ) < n)
        have upper : n < 2 ^ 22 + 1 := by
          exact_mod_cast (by linarith : (n : ℚ) < 2 ^ 22 + 1)
        omega
      · push_cast
        linarith
      · push_cast
        linarith
    · by_cases zero : n = 0
      · subst zero
        have below : r ≤ 1 / 2 - 1 / 2 ^ 24 := by
          apply apart
          norm_num at far
          linarith
        refine ⟨1 - 1 / 2 ^ 24, ⟨2 ^ 24 - 1, -24, by norm_num, by decide, by decide, by decide⟩,
          by linarith, by norm_num⟩
      · exact exists_above_of_fine value short (by omega) zero above far
  · obtain ⟨j, hj⟩ := Int.eq_ofNat_of_zero_le (show 0 ≤ p + 1 by omega)
    have halves : r = (m * 2 ^ j : ℤ) / 2 := by
      rw [value, show p = j + -1 by omega, zpow_add₀ two_ne_zero, zpow_natCast]
      push_cast
      ring
    refine ⟨r + 1 / 2, ?_, le_rfl, far⟩
    obtain ⟨least, most⟩ := abs_lt.mp small
    generalize m * 2 ^ j = k at *
    have sum : r + 1 / 2 = (k + 1 : ℤ) / 2 := by
      rw [halves]
      push_cast
      ring
    rw [halves] at least most
    have lower : -2 ^ 24 < k := by exact_mod_cast (by linarith : (-2 ^ 24 : ℚ) < k)
    have upper : k < 2 ^ 24 := by exact_mod_cast (by linarith : (k : ℚ) < 2 ^ 24)
    rw [sum]
    rcases (show k + 1 ≤ 2 ^ 24 by omega).lt_or_eq with lt | eq
    · exact representable_half (by omega)
    · exact ⟨1, 23, by rw [eq]; norm_num, by decide, by decide, by decide⟩

/-- The greatest number below a half. Its sum with a half rounds up to one. -/
def belowHalf : Binary32 := ⟨0x3effffff⟩

theorem toRat_belowHalf : belowHalf.toRat = 1 / 2 - 1 / 2 ^ 25 := by
  have value : belowHalf.value = .finite false ⟨0xffffff, -25⟩ := by decide +kernel
  rw [(denotes_of_value value).toRat]
  norm_num [Dyadic.toRat, signed]

theorem apart_of_ne_belowHalf (hx : x ≠ belowHalf) (lt : x.toRat < 1 / 2) :
    x.toRat ≤ 1 / 2 - 1 / 2 ^ 24 := by
  have value : (⟨0x3efffffe⟩ : Binary32).value = .finite false ⟨0xfffffe, -25⟩ := by
    decide +kernel
  have second : (⟨0x3efffffe⟩ : Binary32).toRat = 1 / 2 - 1 / 2 ^ 24 := by
    rw [(denotes_of_value value).toRat, signed, Dyadic.toRat]
    norm_num
  have ranks : half.rank = 0x3f000000 ∧ belowHalf.rank = 0x3effffff ∧
      (⟨0x3efffffe⟩ : Binary32).rank = 0x3efffffe := by
    decide +kernel
  have below : x.rank < half.rank := by
    apply not_le.mp
    intro le
    have mono := toRat_mono le
    rw [denotes_half.toRat] at mono
    linarith
  have other : x.rank ≠ belowHalf.rank := by
    intro same
    exact hx (eq_of_rank_eq (by omega) same)
  rw [← second]
  apply toRat_mono
  omega

/-- Of numbers below `2 ^ 23`, only the greatest one below a half is carried too far. -/
theorem floor_add_half_of_small (hx : x.isFinite = true) (small : |x.toRat| < 2 ^ 23)
    (regular : x ≠ belowHalf) :
    (x + half).isFinite = true ∧ ⌊(x + half).toRat⌋ = ⌊x.toRat + 1 / 2⌋ := by
  obtain ⟨s, num, den, hd, sum, value⟩ := add_eq_ofQuotient hx denotes_half.finite
  rw [denotes_half.toRat] at value
  obtain ⟨hi, high, above, below⟩ := exists_above_half (representable_toRat hx) small
    (apart_of_ne_belowHalf regular)
  have short := natAbs_floor_add_half_le (b := 2 ^ 23) (by exact_mod_cast small.le)
  have low : Representable ⌊x.toRat + 1 / 2⌋ := representable_intCast (by omega)
  rw [sum]
  obtain ⟨finite, lower, upper⟩ := ofQuotient_between hd low high
    (value ▸ Int.floor_le _) (value ▸ above)
  exact ⟨finite, Int.floor_eq_iff.mpr ⟨lower, upper.trans_lt below⟩⟩

end Small

section Large

structure IsLarge (x : Binary32) (m e : ℕ) : Prop where
  finite : x.isFinite = true
  magnitude : x.magnitude = ⟨m, e⟩
  full : 2 ^ 23 ≤ m
  short : m < 2 ^ 24
  top : e ≤ 104

theorem exists_isLarge (hx : x.isFinite = true) (large : 2 ^ 23 ≤ |x.toRat|) :
    ∃ m e, x.IsLarge m e := by
  obtain ⟨⟨short, low, long⟩, -⟩ := x.canonical_magnitude
  have top := (packMagnitude_magnitude hx).2
  simp only [BinaryGrid.single] at short low long
  rw [abs_toRat, Dyadic.toRat] at large
  have coarse : 0 ≤ x.magnitude.quantum := by
    by_contra fine
    have step : (2 : ℚ) ^ x.magnitude.quantum ≤ 2 ^ (-1 : ℤ) :=
      zpow_le_zpow_right₀ one_le_two (by omega)
    have bound : (x.magnitude.significand : ℚ) < 2 ^ 24 := by exact_mod_cast short
    have unit : (0 : ℚ) < 2 ^ x.magnitude.quantum := by positivity
    norm_num at step
    nlinarith
  obtain ⟨e, he⟩ := Int.eq_ofNat_of_zero_le coarse
  exact ⟨x.magnitude.significand, e, hx, by rw [← he], by omega, short, by omega⟩

/-- A sum with a half goes back to a power of two, but for the least negative one, where it
is exact. -/
theorem floor_powerOfTwo_add_half (s : Bool) {e : ℕ} (h : e < 105) :
    (ofParts s ((e + 150) * 2 ^ 23) + half).isFinite = true ∧
      ⌊(ofParts s ((e + 150) * 2 ^ 23) + half).toRat⌋ =
        if s then -2 ^ (e + 23) else 2 ^ (e + 23) := by
  have table : ∀ s : Bool, ∀ e : Fin 105,
      (ofParts s ((e.val + 150) * 2 ^ 23) + half).isFinite = true ∧
        floorInt (ofParts s ((e.val + 150) * 2 ^ 23) + half).negative
          (ofParts s ((e.val + 150) * 2 ^ 23) + half).magnitude =
            if s then -2 ^ (e.val + 23) else 2 ^ (e.val + 23) := by
    decide +kernel
  obtain ⟨finite, floor⟩ := table s ⟨e, h⟩
  rw [Denotes.floorInt_eq] at floor
  exact ⟨finite, floor⟩

namespace IsLarge

variable {m e : ℕ}

theorem toRat (h : x.IsLarge m e) : x.toRat = signed x.negative (m * 2 ^ e) := by
  rw [Binary32.toRat, h.magnitude, Dyadic.toRat, zpow_natCast]

theorem floor_toRat (h : x.IsLarge m e) : (⌊x.toRat⌋ : ℚ) = x.toRat := by
  have whole : x.toRat = (if x.negative then -(m * 2 ^ e : ℤ) else m * 2 ^ e : ℤ) := by
    rw [h.toRat, signed]
    split <;> push_cast <;> rfl
  rw [whole, Int.floor_intCast]

theorem eq_ofParts (h : x.IsLarge m e) :
    x = ofParts x.negative ((e + 149) * 2 ^ 23 + m) := by
  have bits := x.canonical_magnitude.2
  rw [h.magnitude] at bits
  have same : (e + 149) * 2 ^ 23 + m = x.magnitudeBits := by
    dsimp only at bits
    omega
  rw [same]
  exact (ofParts_magnitudeBits x).symm

theorem denotes_add_half_of_near {k : ℕ} (h : x.IsLarge m e) (full : 2 ^ 23 < k)
    (short : k < 2 ^ 24)
    (near : |(m - k : ℚ) * 2 ^ e + signed x.negative (1 / 2)| < 2 ^ e / 2 ∨
      |(m - k : ℚ) * 2 ^ e + signed x.negative (1 / 2)| ≤ 2 ^ e / 2 ∧ k % 2 = 0) :
    (x + half).Denotes (signed x.negative (k * 2 ^ e)) := by
  have value : (⟨k, e⟩ : Dyadic).toRat = k * 2 ^ e := by rw [Dyadic.toRat, zpow_natCast]
  have step : (⟨k, e⟩ : Dyadic).half = 2 ^ e / 2 := by rw [Dyadic.half, zpow_natCast]
  have sum : signed x.negative (x.toRat + half.toRat) =
      k * 2 ^ e + ((m - k) * 2 ^ e + signed x.negative (1 / 2)) := by
    rw [h.toRat, denotes_half.toRat]
    cases x.negative <;> simp only [signed] <;> norm_num <;> ring
  have within : BinaryGrid.Within ⟨k, e⟩ (signed x.negative (x.toRat + half.toRat)) := by
    apply BinaryGrid.within_of_error
    rwa [sum, value, step, add_sub_cancel_left]
  have unit : (0 : ℚ) < 2 ^ e := by positivity
  have large : (1 : ℚ) ≤ k := by exact_mod_cast (by omega : 1 ≤ k)
  have sign : 0 < signed x.negative (x.toRat + half.toRat) := by
    have low := within.le
    rw [value, step] at low
    nlinarith
  have canonical : BinaryGrid.single.Canonical ⟨k, e⟩ := by
    refine ⟨short, ?_, .inr ?_⟩ <;> simp only [BinaryGrid.single] <;> omega
  have regular : BinaryGrid.single.IsRegular ⟨k, e⟩ := by
    refine .inr ?_
    simp only [BinaryGrid.single]
    omega
  rw [← value]
  exact denotes_add_of_within h.finite denotes_half.finite canonical regular
    (show 0 < k by omega) (Int.ofNat_le.mpr h.top) sign within

/-- Odd numbers of the unit one are in the middle of a tie, which goes up. -/
theorem denotes_add_half_of_odd (h : x.IsLarge m 0) (odd : m % 2 = 1) :
    (x + half).Denotes (x.toRat + 1) := by
  have value := h.toRat
  have bits := h.eq_ofParts
  have full := h.full
  have short := h.short
  cases sign : x.negative with
  | false =>
    simp only [sign, signed, pow_zero, mul_one] at value
    rcases (show m = 2 ^ 24 - 1 ∨ m + 1 < 2 ^ 24 by omega) with rfl | room
    · have carried : (x + half).value = .finite false ⟨2 ^ 23, 1⟩ := by
        rw [bits, sign]
        decide +kernel
      have denotes := denotes_of_value carried
      rw [value]
      norm_num [signed, Dyadic.toRat] at denotes ⊢
      exact denotes
    · have denotes := h.denotes_add_half_of_near (k := m + 1) (by omega) room ?_
      · simpa [sign, signed, value] using denotes
      · right
        rw [sign]
        refine ⟨?_, by omega⟩
        norm_num [signed]
  | true =>
    simp only [sign, signed, if_true, pow_zero, mul_one] at value
    rcases (show m = 2 ^ 23 + 1 ∨ 2 ^ 23 + 1 < m by omega) with rfl | room
    · have halved : (x + half).value = .finite true ⟨2 ^ 23, 0⟩ := by
        rw [bits, sign]
        decide +kernel
      have denotes := denotes_of_value halved
      rw [value]
      norm_num [signed, Dyadic.toRat] at denotes ⊢
      exact denotes
    · obtain ⟨k, rfl⟩ : ∃ k, m = k + 1 := ⟨m - 1, by omega⟩
      have denotes := h.denotes_add_half_of_near (k := k) (by omega) (by omega) ?_
      · simpa [sign, signed, value] using denotes
      · right
        rw [sign]
        refine ⟨?_, by omega⟩
        norm_num [signed]

theorem denotes_add_half_of_not_odd (h : x.IsLarge m e) (full : 2 ^ 23 < m)
    (even : ¬(e = 0 ∧ m % 2 = 1)) : (x + half).Denotes x.toRat := by
  rw [h.toRat]
  apply h.denotes_add_half_of_near full h.short
  rw [sub_self, zero_mul, zero_add, abs_signed, abs_of_pos one_half_pos]
  rcases e.eq_zero_or_pos with rfl | pos
  · exact .inr ⟨by simp, by omega⟩
  · have coarse : (1 : ℚ) < 2 ^ e := one_lt_pow₀ one_lt_two pos.ne'
    exact .inl (by linarith)

theorem floor_add_half (h : x.IsLarge m e) : (x + half).isFinite = true ∧
    ⌊(x + half).toRat⌋ = if e = 0 ∧ m % 2 = 1 then ⌊x.toRat⌋ + 1 else ⌊x.toRat⌋ := by
  rcases h.full.eq_or_lt with rfl | full
  · have sum := floor_powerOfTwo_add_half x.negative (Nat.lt_succ_of_le h.top)
    rw [show (e + 150) * 2 ^ 23 = (e + 149) * 2 ^ 23 + 2 ^ 23 by ring, ← h.eq_ofParts] at sum
    have whole : x.toRat = (if x.negative then -2 ^ (e + 23) else 2 ^ (e + 23) : ℤ) := by
      rw [h.toRat, signed]
      split <;> push_cast <;> ring
    have even : ¬(e = 0 ∧ 2 ^ 23 % 2 = 1) := by omega
    rw [if_neg even, whole, Int.floor_intCast]
    exact sum
  · split
    next odd =>
      obtain ⟨rfl, odd⟩ := odd
      have sum := h.denotes_add_half_of_odd odd
      exact ⟨sum.finite, by rw [sum.toRat, Int.floor_add_one]⟩
    next even =>
      have sum := h.denotes_add_half_of_not_odd full even
      exact ⟨sum.finite, by rw [sum.toRat]⟩

end IsLarge

end Large

section Rounded

/-- The numbers for which the nearest whole number, halves up, is the whole part toward
zero. From `2 ^ 24` on there is no doubt about it. -/
def IsNearWhole (x : Binary32) : Prop :=
  if |x.toRat| < 2 ^ 23 then
    x ≠ belowHalf ∧ -(1 / 2) ≤ x.toRat - truncate x.toRat ∧ x.toRat - truncate x.toRat < 1 / 2
  else |x.toRat| < 2 ^ 24 → Even (truncate x.toRat)

theorem roundHalfUp_belowHalf : belowHalf.roundHalfUp = 1 ∧ belowHalf.toInt = 0 := by
  decide +kernel

theorem roundHalfUp_of_small (hx : x.isFinite = true) (small : |x.toRat| < 2 ^ 23)
    (regular : x ≠ belowHalf) : x.roundHalfUp = ⌊x.toRat + 1 / 2⌋ := by
  obtain ⟨finite, floor⟩ := floor_add_half_of_small hx small regular
  have short := natAbs_floor_add_half_le (b := 2 ^ 23) (by exact_mod_cast small.le)
  rw [roundHalfUp, toInt_floor finite, floor, hold_of_natAbs_lt (by omega)]

theorem toInt_of_small (hx : x.isFinite = true) (small : |x.toRat| < 2 ^ 23) :
    x.toInt = truncate x.toRat := by
  have short := natAbs_truncate_le (b := 2 ^ 23) (by exact_mod_cast small.le)
  rw [toInt_eq hx, hold_of_natAbs_lt (by omega)]

theorem natAbs_roundHalfUp_le (hx : x.isFinite = true) {b : ℕ} (size : |x.toRat| ≤ b)
    (pos : 0 < b) (short : b < 2 ^ 23) : x.roundHalfUp.natAbs ≤ b := by
  by_cases regular : x = belowHalf
  · rw [regular, roundHalfUp_belowHalf.1]
    exact pos
  · have small : (b : ℚ) < 2 ^ 23 := by exact_mod_cast short
    rw [roundHalfUp_of_small hx (size.trans_lt small) regular]
    exact natAbs_floor_add_half_le size

theorem abs_sub_truncate_lt (r : ℚ) : |r - truncate r| < 1 := by
  unfold truncate
  rw [abs_lt]
  split
  · constructor <;> linarith [Int.floor_le r, Int.lt_floor_add_one r]
  · constructor <;> linarith [Int.le_ceil r, Int.ceil_lt_add_one r]

theorem floor_add_half_eq_iff {n : ℤ} :
    ⌊r + 1 / 2⌋ = n ↔ -(1 / 2) ≤ r - n ∧ r - n < 1 / 2 := by
  rw [Int.floor_eq_iff]
  constructor
  · rintro ⟨low, high⟩
    constructor <;> linarith
  · rintro ⟨low, high⟩
    constructor <;> linarith

namespace IsLarge

variable {m e : ℕ}

theorem lt_iff (h : x.IsLarge m e) : |x.toRat| < 2 ^ 24 ↔ e = 0 := by
  have full : (2 : ℚ) ^ 23 ≤ m := by exact_mod_cast h.full
  have short : (m : ℚ) < 2 ^ 24 := by exact_mod_cast h.short
  rw [h.toRat, abs_signed, abs_of_nonneg (by positivity)]
  constructor
  · intro lt
    by_contra coarse
    have twice : (2 : ℚ) ^ 1 ≤ 2 ^ e := pow_le_pow_right₀ one_le_two (by omega)
    nlinarith
  · rintro rfl
    simpa using short

theorem floor_of_unit (h : x.IsLarge m 0) : ⌊x.toRat⌋ = if x.negative then -(m : ℤ) else m := by
  have whole : x.toRat = (if x.negative then -(m : ℤ) else m : ℤ) := by
    rw [h.toRat, signed]
    split <;> simp
  rw [whole, Int.floor_intCast]

theorem truncate_eq (h : x.IsLarge m e) : truncate x.toRat = ⌊x.toRat⌋ := by
  rw [← h.floor_toRat, truncate_intCast, Int.floor_intCast]

theorem toInt_eq (h : x.IsLarge m e) : x.toInt = hold ⌊x.toRat⌋ := by
  rw [Binary32.toInt_eq h.finite, h.truncate_eq]

theorem le_natAbs_toInt (h : x.IsLarge m e) : 2 ^ 23 ≤ x.toInt.natAbs := by
  have size : 2 ^ 23 ≤ ⌊x.toRat⌋.natAbs := by
    have full : (2 : ℚ) ^ 23 ≤ |(⌊x.toRat⌋ : ℚ)| := by
      rw [h.floor_toRat, h.toRat, abs_signed, abs_of_nonneg (by positivity)]
      exact_mod_cast h.full.trans (Nat.le_mul_of_pos_right m (by positivity))
    rw [← Int.cast_abs, Int.abs_eq_natAbs] at full
    exact_mod_cast full
  have lo : Int32.minValue.toInt = -2 ^ 31 := by decide
  have hi : Int32.maxValue.toInt = 2 ^ 31 - 1 := by decide
  rw [h.toInt_eq, hold, lo, hi]
  omega

theorem roundHalfUp_eq (h : x.IsLarge m e) : x.roundHalfUp =
    hold (if e = 0 ∧ m % 2 = 1 then ⌊x.toRat⌋ + 1 else ⌊x.toRat⌋) := by
  obtain ⟨finite, floor⟩ := h.floor_add_half
  rw [roundHalfUp, toInt_floor finite, floor]

theorem roundHalfUp_sub_toInt (h : x.IsLarge m e) :
    x.roundHalfUp - x.toInt = if e = 0 ∧ m % 2 = 1 then 1 else 0 := by
  rw [h.roundHalfUp_eq, h.toInt_eq]
  split
  next odd =>
    obtain ⟨rfl, odd⟩ := odd
    have short := h.short
    have bound : ⌊x.toRat⌋.natAbs < 2 ^ 24 := by
      rw [h.floor_of_unit]
      split <;> omega
    rw [hold_of_natAbs_lt (by omega), hold_of_natAbs_lt (by omega)]
    omega
  next => exact sub_self _

end IsLarge

theorem roundHalfUp_eq_toInt_iff (hx : x.isFinite = true) :
    x.roundHalfUp = x.toInt ↔ x.IsNearWhole := by
  unfold IsNearWhole
  split
  next small =>
    by_cases regular : x = belowHalf
    · rw [regular, roundHalfUp_belowHalf.1, roundHalfUp_belowHalf.2]
      simp
    · rw [roundHalfUp_of_small hx small regular, toInt_of_small hx small, floor_add_half_eq_iff]
      simp [regular]
  next large =>
    obtain ⟨m, e, h⟩ := exists_isLarge hx (not_lt.mp large)
    rw [← sub_eq_zero, h.roundHalfUp_sub_toInt, h.lt_iff, h.truncate_eq]
    constructor
    · rintro same rfl
      rw [h.floor_of_unit, Int.even_iff]
      split at same <;> split <;> omega
    · intro even
      split
      next odd =>
        obtain ⟨rfl, odd⟩ := odd
        have even := even rfl
        rw [h.floor_of_unit, Int.even_iff] at even
        split at even <;> omega
      next => rfl

theorem natAbs_roundHalfUp_sub_toInt (hx : x.isFinite = true) :
    (x.roundHalfUp - x.toInt).natAbs ≤ 1 := by
  rcases lt_or_ge |x.toRat| (2 ^ 23) with small | large
  · by_cases regular : x = belowHalf
    · rw [regular, roundHalfUp_belowHalf.1, roundHalfUp_belowHalf.2]
      decide
    · rw [roundHalfUp_of_small hx small regular, toInt_of_small hx small]
      obtain ⟨low, high⟩ := abs_lt.mp (abs_sub_truncate_lt x.toRat)
      have lower : truncate x.toRat - 1 ≤ ⌊x.toRat + 1 / 2⌋ :=
        Int.le_floor.mpr (by push_cast; linarith)
      have upper : ⌊x.toRat + 1 / 2⌋ < truncate x.toRat + 2 :=
        Int.floor_lt.mpr (by push_cast; linarith)
      omega
  · obtain ⟨m, e, h⟩ := exists_isLarge hx large
    rw [h.roundHalfUp_sub_toInt]
    split <;> decide

/-- A number is rounded to a whole one of moderate size just if it lies around that one. -/
theorem roundHalfUp_eq_iff (hx : x.isFinite = true) {n : ℤ} (near : n.natAbs < 2 ^ 22) :
    x.roundHalfUp = n ↔ if x = belowHalf then n = 1
      else -(1 / 2) ≤ x.toRat - n ∧ x.toRat - n < 1 / 2 := by
  split
  next irregular => rw [irregular, roundHalfUp_belowHalf.1, eq_comm]
  next regular =>
    rcases lt_or_ge |x.toRat| (2 ^ 23) with small | large
    · rw [roundHalfUp_of_small hx small regular, floor_add_half_eq_iff]
    · obtain ⟨m, e, h⟩ := exists_isLarge hx large
      have toInt := h.le_natAbs_toInt
      have next := natAbs_roundHalfUp_sub_toInt hx
      have lower : -2 ^ 22 < (n : ℚ) := by exact_mod_cast (by omega : -2 ^ 22 < n)
      have upper : (n : ℚ) < 2 ^ 22 := by exact_mod_cast (by omega : n < 2 ^ 22)
      apply iff_of_false
      · omega
      · rintro ⟨low, high⟩
        apply large.not_gt
        apply abs_lt.mpr
        constructor <;> linarith

end Rounded

end MarkerLattice.Binary32
