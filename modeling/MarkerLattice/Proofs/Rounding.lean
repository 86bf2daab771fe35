import Mathlib
import MarkerLattice.Rounding

/-! Exact quotients survive rounding: a quotient that lies on the grid is its own
nearest point, with the significand as long as the grid allows. Other quotients
are rounded in their order. -/
namespace MarkerLattice

theorem abs_intCast_le {n : ℤ} {b : ℕ} (h : n.natAbs ≤ b) : |(n : ℚ)| ≤ b := by
  rw [← Int.cast_abs, Int.abs_eq_natAbs]
  exact_mod_cast h

theorem natAbs_floor_le {r : ℚ} {b : ℕ} (h : |r| ≤ b) : ⌊r⌋.natAbs ≤ b := by
  obtain ⟨lower, upper⟩ := abs_le.mp h
  have low : -(b : ℤ) ≤ ⌊r⌋ := Int.le_floor.mpr (by exact_mod_cast lower)
  have high : ⌊r⌋ ≤ b := by exact_mod_cast (Int.floor_le r).trans upper
  omega

theorem two_zpow_of_nonneg {e : ℤ} (h : 0 ≤ e) : (2 : ℚ) ^ e = 2 ^ e.toNat := by
  rw [← zpow_natCast, Int.toNat_of_nonneg h]

theorem mul_two_zpow_lt_iff (k n : ℕ) (q : ℤ) :
    (k : ℚ) * 2 ^ q < 2 ^ (q + n) ↔ k < 2 ^ n := by
  rw [zpow_add₀ two_ne_zero, mul_comm, mul_lt_mul_iff_right₀ (by positivity), zpow_natCast]
  norm_cast

theorem zpow_eq_div (b : ℚ) (e : ℤ) : b ^ e = b ^ e.toNat / b ^ (-e).toNat := by
  rcases le_total 0 e with h | h
  · obtain ⟨n, rfl⟩ := Int.eq_ofNat_of_zero_le h
    simp
  · obtain ⟨n, hn⟩ := Int.eq_ofNat_of_zero_le (Int.neg_nonneg.mpr h)
    obtain rfl : e = -n := by omega
    simp

namespace Dyadic

def toRat (d : Dyadic) : ℚ := d.significand * 2 ^ d.quantum

theorem denominator_pos (d : Dyadic) : 0 < d.denominator := Nat.two_pow_pos _

theorem numerator_div_denominator (d : Dyadic) :
    (d.numerator : ℚ) / d.denominator = d.toRat := by
  have h := zpow_eq_div 2 d.quantum
  simp only [numerator, denominator, toRat, h, Nat.pow_eq, Nat.cast_mul, Nat.cast_pow,
    Nat.cast_ofNat, mul_div_assoc]

end Dyadic

theorem roundedQuotient_mul_self (k : ℕ) {den : ℕ} (h : 0 < den) :
    roundedQuotient (k * den) den = k := by
  simp [roundedQuotient, Nat.mul_div_cancel k h, h]

theorem floorLog2_spec {num den : ℕ} (hn : 0 < num) (hd : 0 < den) :
    (2 : ℚ) ^ floorLog2 num den ≤ (num : ℚ) / den ∧
      (num : ℚ) / den < 2 ^ (floorLog2 num den + 1) := by
  have hd' : (0 : ℚ) < den := by exact_mod_cast hd
  have numLow : (2 : ℚ) ^ (num.log2 : ℤ) ≤ num := by
    exact_mod_cast Nat.log2_self_le hn.ne'
  have numHigh : (num : ℚ) < 2 ^ ((num.log2 : ℤ) + 1) := by
    exact_mod_cast Nat.lt_log2_self
  have denLow : (2 : ℚ) ^ (den.log2 : ℤ) ≤ den := by
    exact_mod_cast Nat.log2_self_le hd.ne'
  have denHigh : (den : ℚ) < 2 ^ ((den.log2 : ℤ) + 1) := by
    exact_mod_cast Nat.lt_log2_self
  simp only [floorLog2]
  generalize (num.log2 : ℤ) = a at *
  generalize (den.log2 : ℤ) = b at *
  have test : den * Nat.pow 2 (a - b).toNat ≤ num * Nat.pow 2 (-(a - b)).toNat ↔
      (2 : ℚ) ^ (a - b) ≤ num / den := by
    rw [le_div_iff₀ hd', zpow_eq_div, div_mul_eq_mul_div, div_le_iff₀ (by positivity),
      mul_comm]
    norm_cast
  split
  next h =>
    refine ⟨test.mp h, ?_⟩
    rw [div_lt_iff₀ hd']
    calc (num : ℚ) < 2 ^ (a + 1) := numHigh
      _ = 2 ^ (a - b + 1) * 2 ^ b := by rw [← zpow_add₀ two_ne_zero]; congr 1; omega
      _ ≤ 2 ^ (a - b + 1) * den := by gcongr
  next h =>
    have below := not_le.mp (mt test.mpr h)
    refine ⟨?_, by simpa using below⟩
    rw [le_div_iff₀ hd']
    calc (2 : ℚ) ^ (a - b - 1) * den ≤ 2 ^ (a - b - 1) * 2 ^ (b + 1) := by gcongr
      _ = 2 ^ a := by rw [← zpow_add₀ two_ne_zero]; congr 1; omega
      _ ≤ num := numLow

/-- Rounding goes beyond `n` from the middle between `n` and `n + 1` on, and from
the middle itself to the even side. -/
theorem lt_roundedQuotient_iff {num den : ℕ} (n : ℕ) (hd : 0 < den) :
    n < roundedQuotient num den ↔
      (n : ℚ) + 1 / 2 < num / den ∨ (n : ℚ) + 1 / 2 = num / den ∧ n % 2 = 1 := by
  have hd' : (0 : ℚ) < den := by exact_mod_cast hd
  have lt : (n : ℚ) + 1 / 2 < num / den ↔ (2 * n + 1) * den < 2 * num := by
    rw [lt_div_iff₀ hd', ← mul_lt_mul_iff_right₀ (two_pos (α := ℚ)), ← mul_assoc, mul_add,
      mul_one_div_cancel two_ne_zero]
    norm_cast
  have eq : (n : ℚ) + 1 / 2 = num / den ↔ (2 * n + 1) * den = 2 * num := by
    rw [eq_div_iff hd'.ne', ← mul_right_inj' (two_ne_zero (α := ℚ)), ← mul_assoc, mul_add,
      mul_one_div_cancel two_ne_zero]
    norm_cast
  rw [lt, eq]
  have whole := Nat.div_add_mod num den
  have rest := Nat.mod_lt num hd
  simp only [roundedQuotient]
  generalize num / den = q at *
  generalize num % den = r at *
  subst whole
  have expand : (2 * n + 1) * den = 2 * (den * n) + den := by ring
  rw [expand]
  rcases lt_trichotomy n q with below | rfl | above
  · have far : den * n + den ≤ den * q := Nat.mul_le_mul_left den below
    generalize den * n = a at *
    generalize den * q = b at *
    split_ifs <;> omega
  · generalize den * n = a at *
    split_ifs <;> omega
  · have far : den * q + den ≤ den * n := Nat.mul_le_mul_left den above
    generalize den * n = a at *
    generalize den * q = b at *
    split_ifs <;> omega

theorem roundedQuotient_mono {num den num' den' : ℕ} (hd : 0 < den) (hd' : 0 < den')
    (h : (num : ℚ) / den ≤ num' / den') :
    roundedQuotient num den ≤ roundedQuotient num' den' := by
  apply le_of_forall_lt
  intro n hn
  rw [lt_roundedQuotient_iff n hd] at hn
  rw [lt_roundedQuotient_iff n hd']
  rcases hn with below | ⟨middle, odd⟩
  · exact .inl (below.trans_le h)
  · rcases h.lt_or_eq with lt | eq
    · exact .inl (middle.trans_lt lt)
    · exact .inr ⟨middle.trans eq, odd⟩

theorem roundedQuotient_le {num den k : ℕ} (hd : 0 < den) (h : (num : ℚ) / den ≤ k) :
    roundedQuotient num den ≤ k := by
  have whole : (num : ℚ) / den ≤ (k * 1 : ℕ) / (1 : ℕ) := by simpa using h
  have mono := roundedQuotient_mono hd one_pos whole
  rwa [roundedQuotient_mul_self k one_pos] at mono

theorem le_roundedQuotient {num den k : ℕ} (hd : 0 < den) (h : (k : ℚ) ≤ num / den) :
    k ≤ roundedQuotient num den := by
  have whole : ((k * 1 : ℕ) : ℚ) / (1 : ℕ) ≤ num / den := by simpa using h
  have mono := roundedQuotient_mono one_pos hd whole
  rwa [roundedQuotient_mul_self k one_pos] at mono

theorem roundedQuotient_error (num : ℕ) {den : ℕ} (hd : 0 < den) :
    |(roundedQuotient num den : ℚ) - num / den| ≤ 1 / 2 := by
  have above := mt (lt_roundedQuotient_iff (roundedQuotient num den) hd).mpr
    (lt_irrefl (roundedQuotient num den))
  have nonneg : (0 : ℚ) ≤ num / den := by positivity
  push Not at above
  rw [abs_le]
  refine ⟨by linarith [above.1], ?_⟩
  cases h : roundedQuotient num den with
  | zero => simp only [Nat.cast_zero]; linarith
  | succ n =>
    have next : n < roundedQuotient num den := by omega
    have below := (lt_roundedQuotient_iff n hd).mp next
    push_cast
    rcases below with lt | ⟨eq, -⟩ <;> linarith

theorem floorLog2_mono {num den num' den' : ℕ} (hn : 0 < num) (hd : 0 < den) (hn' : 0 < num')
    (hd' : 0 < den') (h : (num : ℚ) / den ≤ num' / den') :
    floorLog2 num den ≤ floorLog2 num' den' := by
  have low := (floorLog2_spec hn hd).1
  have high := (floorLog2_spec hn' hd').2
  have lt := (zpow_lt_zpow_iff_right₀ (one_lt_two (α := ℚ))).mp (low.trans_lt (h.trans_lt high))
  omega

namespace BinaryGrid

/-- The form in which the grid names its points: a long significand unless the
quantum is the least. -/
structure Canonical (grid : BinaryGrid) (d : Dyadic) : Prop where
  lt : d.significand < 2 ^ grid.precision
  low : grid.minQuantum ≤ d.quantum
  long : d.quantum = grid.minQuantum ∨ 2 ^ grid.precision ≤ 2 * d.significand

variable (grid : BinaryGrid) {num den m : ℕ} {p : ℤ}

theorem canonical_zero : grid.Canonical ⟨0, grid.minQuantum⟩ :=
  ⟨Nat.two_pow_pos _, le_refl _, .inl rfl⟩

theorem shifted_of_eq {q : ℤ} (hd : 0 < den) (value : (num : ℚ) / den = m * 2 ^ p)
    (hq : q ≤ p) : num * Nat.pow 2 (-q).toNat =
      m * 2 ^ (p - q).toNat * (den * Nat.pow 2 q.toNat) := by
  have hd' : (den : ℚ) ≠ 0 := by exact_mod_cast hd.ne'
  have rise := two_zpow_of_nonneg (Int.sub_nonneg.mpr hq)
  have h : (num : ℚ) * 2 ^ (-q).toNat = m * 2 ^ (p - q).toNat * (den * 2 ^ q.toNat) := by
    calc (num : ℚ) * 2 ^ (-q).toNat = m * (2 ^ (p - q) * 2 ^ q) * den * 2 ^ (-q).toNat := by
          rw [← zpow_add₀ two_ne_zero, sub_add_cancel, ← value, div_mul_cancel₀ _ hd']
      _ = m * 2 ^ (p - q).toNat * (den * 2 ^ q.toNat) := by
          rw [rise, zpow_eq_div 2 q]
          field_simp
  exact_mod_cast h

theorem quantumOf_lt {q : ℤ} (h : q = grid.quantumOf num den) :
    floorLog2 num den + 1 ≤ q + grid.precision ∧
      (q = grid.minQuantum ∨ floorLog2 num den + 1 = q + grid.precision) := by
  rw [quantumOf] at h
  omega

theorem nearest_exact (hd : 0 < den) (value : (num : ℚ) / den = m * 2 ^ p)
    (fits : m < 2 ^ grid.precision) (low : grid.minQuantum ≤ p) :
    grid.Canonical (grid.nearest num den) ∧ (grid.nearest num den).quantum ≤ p ∧
      (grid.nearest num den).toRat = num / den := by
  simp only [nearest]
  split
  next hn => exact ⟨grid.canonical_zero, low, by simp [Dyadic.toRat, hn]⟩
  next hn =>
    obtain ⟨above, below⟩ := floorLog2_spec (Nat.pos_of_ne_zero hn) hd
    obtain ⟨q, hq⟩ : ∃ q, q = grid.quantumOf num den := ⟨_, rfl⟩
    have small : floorLog2 num den < grid.precision + p := by
      apply (zpow_lt_zpow_iff_right₀ (one_lt_two (α := ℚ))).mp
      calc (2 : ℚ) ^ floorLog2 num den ≤ m * 2 ^ p := above.trans_eq value
        _ < 2 ^ (grid.precision : ℤ) * 2 ^ p := by gcongr; exact_mod_cast fits
        _ = 2 ^ (grid.precision + p) := (zpow_add₀ two_ne_zero _ _).symm
    have hqp : q ≤ p := by
      rw [quantumOf] at hq
      omega
    obtain ⟨top, long⟩ := grid.quantumOf_lt hq
    have unit : 0 < den * Nat.pow 2 q.toNat := Nat.mul_pos hd (Nat.two_pow_pos _)
    rw [← hq, shifted_of_eq hd value hqp, roundedQuotient_mul_self _ unit]
    generalize hk : m * 2 ^ (p - q).toNat = k
    have exact : (k : ℚ) * 2 ^ q = num / den := by
      have rise := two_zpow_of_nonneg (Int.sub_nonneg.mpr hqp)
      rw [← hk, value, Nat.cast_mul, Nat.cast_pow, Nat.cast_two, ← rise, mul_assoc,
        ← zpow_add₀ two_ne_zero, sub_add_cancel]
    rw [← exact] at above below
    refine ⟨⟨?_, ?_, long.imp_right fun long => ?_⟩, hqp, exact⟩
    · rw [← mul_two_zpow_lt_iff k _ q]
      exact below.trans_le (zpow_le_zpow_right₀ one_le_two top)
    · rw [hq, quantumOf]
      exact le_max_right _ _
    · apply not_lt.mp
      rw [← mul_two_zpow_lt_iff (2 * k) _ q, ← long, not_lt, zpow_add_one₀ two_ne_zero]
      push_cast
      linarith

section Order

variable {num' den' : ℕ}

theorem shifted_div (num den : ℕ) (q : ℤ) :
    ((num * Nat.pow 2 (-q).toNat : ℕ) : ℚ) / (den * Nat.pow 2 q.toNat : ℕ) =
      num / den / 2 ^ q := by
  rw [zpow_eq_div 2 q]
  simp only [Nat.pow_eq]
  push_cast
  field_simp

theorem nearest_of_pos (hn : 0 < num) : grid.nearest num den =
    ⟨roundedQuotient (num * Nat.pow 2 (-grid.quantumOf num den).toNat)
      (den * Nat.pow 2 (grid.quantumOf num den).toNat), grid.quantumOf num den⟩ := by
  simp only [nearest, if_neg hn.ne']

/-- Significands have the precision of the grid, but for a carry. -/
theorem significand_nearest_le (num : ℕ) (hd : 0 < den) :
    (grid.nearest num den).significand ≤ 2 ^ grid.precision := by
  rcases num.eq_zero_or_pos with rfl | hn
  · simp [nearest]
  rw [nearest_of_pos grid hn]
  have unit : 0 < den * Nat.pow 2 (grid.quantumOf num den).toNat :=
    Nat.mul_pos hd (Nat.two_pow_pos _)
  have top : _ ≤ grid.quantumOf num den + _ := (grid.quantumOf_lt rfl).1
  apply roundedQuotient_le unit
  rw [shifted_div, div_le_iff₀ (by positivity)]
  calc (num : ℚ) / den ≤ 2 ^ (floorLog2 num den + 1) := (floorLog2_spec hn hd).2.le
    _ ≤ 2 ^ (grid.quantumOf num den + grid.precision) := zpow_le_zpow_right₀ one_le_two top
    _ = ((2 ^ grid.precision : ℕ) : ℚ) * 2 ^ grid.quantumOf num den := by
      rw [zpow_add₀ two_ne_zero, mul_comm]
      norm_cast

theorem le_significand_nearest (num : ℕ) {k : ℕ} (precision : grid.precision = k + 1) (hd : 0 < den)
    (above : grid.minQuantum < (grid.nearest num den).quantum) :
    2 ^ k ≤ (grid.nearest num den).significand := by
  rcases num.eq_zero_or_pos with rfl | hn
  · simp [nearest] at above
  rw [nearest_of_pos grid hn] at above ⊢
  have unit : 0 < den * Nat.pow 2 (grid.quantumOf num den).toNat :=
    Nat.mul_pos hd (Nat.two_pow_pos _)
  have long : floorLog2 num den = k + grid.quantumOf num den := by
    have := (grid.quantumOf_lt rfl).2.resolve_left above.ne'
    omega
  apply le_roundedQuotient unit
  rw [shifted_div, le_div_iff₀ (by positivity)]
  calc ((2 ^ k : ℕ) : ℚ) * 2 ^ grid.quantumOf num den = 2 ^ floorLog2 num den := by
        rw [long, zpow_add₀ two_ne_zero]
        norm_cast
    _ ≤ num / den := (floorLog2_spec hn hd).1

theorem minQuantum_le_nearest (num den : ℕ) :
    grid.minQuantum ≤ (grid.nearest num den).quantum := by
  rcases num.eq_zero_or_pos with rfl | hn
  · simp [nearest]
  · rw [nearest_of_pos grid hn]
    exact le_max_right _ _

theorem nearest_error (num : ℕ) (hd : 0 < den) :
    |(grid.nearest num den).toRat - num / den| ≤ 2 ^ (grid.nearest num den).quantum / 2 := by
  rcases num.eq_zero_or_pos with rfl | hn
  · simp only [nearest, Dyadic.toRat, if_true, Nat.cast_zero, zero_mul, zero_div, sub_zero, abs_zero]
    positivity
  rw [nearest_of_pos grid hn, Dyadic.toRat]
  generalize grid.quantumOf num den = q
  have unit : 0 < den * Nat.pow 2 q.toNat := Nat.mul_pos hd (Nat.two_pow_pos _)
  have error := roundedQuotient_error (num * Nat.pow 2 (-q).toNat) unit
  have step : (0 : ℚ) < 2 ^ q := by positivity
  rw [shifted_div] at error
  calc |(roundedQuotient _ _ : ℚ) * 2 ^ q - num / den|
      = |(roundedQuotient _ _ : ℚ) - num / den / 2 ^ q| * 2 ^ q := by
        rw [← abs_of_pos step, ← abs_mul, abs_of_pos step, sub_mul, div_mul_cancel₀ _ step.ne']
    _ ≤ 1 / 2 * 2 ^ q := by gcongr
    _ = 2 ^ q / 2 := by ring

/-- Rounding keeps the order: the larger quotient has the larger quantum, or the
same one and the larger significand. -/
theorem nearest_mono (hd : 0 < den) (hd' : 0 < den') (h : (num : ℚ) / den ≤ num' / den') :
    (grid.nearest num den).quantum < (grid.nearest num' den').quantum ∨
      (grid.nearest num den).quantum = (grid.nearest num' den').quantum ∧
        (grid.nearest num den).significand ≤ (grid.nearest num' den').significand := by
  rcases num.eq_zero_or_pos with rfl | hn
  · have low := grid.minQuantum_le_nearest num' den'
    simpa [nearest] using low.lt_or_eq
  have pos : (0 : ℚ) < num' / den' := lt_of_lt_of_le (by positivity) h
  have hn' : 0 < num' := by
    apply Nat.pos_of_ne_zero
    rintro rfl
    simp at pos
  rw [nearest_of_pos grid hn, nearest_of_pos grid hn']
  have quanta : grid.quantumOf num den ≤ grid.quantumOf num' den' := by
    have := floorLog2_mono hn hd hn' hd' h
    simp only [quantumOf]
    omega
  refine quanta.lt_or_eq.imp_right fun same => ⟨same, ?_⟩
  dsimp only at same ⊢
  rw [same]
  apply roundedQuotient_mono
  · exact Nat.mul_pos hd (Nat.two_pow_pos _)
  · exact Nat.mul_pos hd' (Nat.two_pow_pos _)
  · rw [shifted_div, shifted_div]
    gcongr

end Order

end BinaryGrid

end MarkerLattice
