import Mathlib
import MarkerLattice.Proofs.Rounding

/-! Rounding from the result's side: whatever lies no farther than halfway to the next
point of the grid is rounded to the point. -/
namespace MarkerLattice

def Dyadic.half (d : Dyadic) : ℚ := 2 ^ d.quantum / 2

theorem Dyadic.half_pos (d : Dyadic) : 0 < d.half := by
  unfold half
  positivity

theorem Dyadic.toRat_lt_half (d : Dyadic) (lt : d.significand < 2 ^ 24) :
    d.toRat < 2 ^ 25 * d.half := by
  have small : (d.significand : ℚ) < 2 ^ 24 := by exact_mod_cast lt
  have unit : (0 : ℚ) < 2 ^ d.quantum := by positivity
  rw [toRat, half]
  nlinarith

namespace BinaryGrid

variable {grid : BinaryGrid} {d : Dyadic} {num den : ℕ}

/-- The numbers that are no farther from a point of the grid than the middle to the next
one; the middle belongs to the even points. -/
def Within (d : Dyadic) (r : ℚ) : Prop :=
  (d.toRat - d.half < r ∨ d.toRat - d.half = r ∧ d.significand % 2 = 0) ∧
    (r < d.toRat + d.half ∨ r = d.toRat + d.half ∧ d.significand % 2 = 0)

theorem Within.le {r : ℚ} (h : Within d r) : d.toRat - d.half ≤ r := by
  rcases h.1 with lt | ⟨eq, -⟩
  · exact lt.le
  · exact eq.le

theorem within_of_error {r : ℚ} (near : |r - d.toRat| < d.half ∨
    |r - d.toRat| ≤ d.half ∧ d.significand % 2 = 0) : Within d r := by
  rcases near with lt | ⟨le, even⟩
  · obtain ⟨low, high⟩ := abs_lt.mp lt
    exact ⟨.inl (by linarith), .inl (by linarith)⟩
  · obtain ⟨low, high⟩ := abs_le.mp le
    exact ⟨(show d.toRat - d.half ≤ r by linarith).lt_or_eq.imp_right fun eq => ⟨eq, even⟩,
      (show r ≤ d.toRat + d.half by linarith).lt_or_eq.imp_right fun eq => ⟨eq, even⟩⟩

/-- The points of the grid are as far apart below the point as they are above it. -/
def IsRegular (grid : BinaryGrid) (d : Dyadic) : Prop :=
  d.quantum = grid.minQuantum ∨ 2 ^ grid.precision < 2 * d.significand

theorem roundedQuotient_eq {num den m : ℕ} (hd : 0 < den)
    (low : (m : ℚ) - 1 / 2 < num / den ∨ (m : ℚ) - 1 / 2 = num / den ∧ m % 2 = 0)
    (high : (num : ℚ) / den < m + 1 / 2 ∨ (num : ℚ) / den = m + 1 / 2 ∧ m % 2 = 0) :
    roundedQuotient num den = m := by
  apply le_antisymm
  · apply not_lt.mp
    rw [lt_roundedQuotient_iff m hd]
    rintro (above | ⟨middle, odd⟩)
    · rcases high with high | ⟨high, -⟩ <;> linarith
    · rcases high with high | ⟨-, even⟩
      · linarith
      · omega
  · rcases m with - | m
    · exact Nat.zero_le _
    · apply (lt_roundedQuotient_iff m hd).mpr
      push_cast at low
      rcases low with low | ⟨low, even⟩
      · exact .inl (by linarith)
      · exact .inr ⟨by linarith, by omega⟩

theorem quantumOf_eq {m : ℕ} {q : ℤ} (h : grid.Canonical ⟨m, q⟩) (regular : grid.IsRegular ⟨m, q⟩)
    (hn : 0 < num) (hd : 0 < den) (above : ((m : ℚ) - 1 / 2) * 2 ^ q ≤ num / den)
    (below : (num : ℚ) / den ≤ (m + 1 / 2) * 2 ^ q) : grid.quantumOf num den = q := by
  obtain ⟨fits, least, long⟩ := h
  simp only [IsRegular] at *
  have unit : (0 : ℚ) < 2 ^ q := by positivity
  obtain ⟨bottom, top⟩ := floorLog2_spec hn hd
  have last : (m : ℚ) + 1 ≤ 2 ^ (grid.precision : ℤ) := by exact_mod_cast fits
  have small : floorLog2 num den < grid.precision + q := by
    apply (zpow_lt_zpow_iff_right₀ (one_lt_two (α := ℚ))).mp
    rw [zpow_add₀ two_ne_zero]
    nlinarith
  rw [quantumOf]
  rcases regular with same | long
  · omega
  · have half : (2 : ℚ) ^ (grid.precision : ℤ) + 1 ≤ 2 * m := by exact_mod_cast long
    have large : grid.precision + q < floorLog2 num den + 1 + 1 := by
      apply (zpow_lt_zpow_iff_right₀ (one_lt_two (α := ℚ))).mp
      rw [zpow_add₀ two_ne_zero, zpow_add_one₀ two_ne_zero]
      nlinarith
    omega

/-- A quotient is rounded to the point that it is no farther from than half a quantum. -/
theorem nearest_of_within (h : grid.Canonical d) (regular : grid.IsRegular d)
    (pos : 0 < d.significand) (hd : 0 < den) (within : Within d ((num : ℚ) / den)) :
    grid.nearest num den = d := by
  obtain ⟨m, q⟩ := d
  obtain ⟨low, high⟩ := within
  simp only [Dyadic.toRat, Dyadic.half] at *
  have unit : (0 : ℚ) < 2 ^ q := by positivity
  have one : (1 : ℚ) ≤ m := by exact_mod_cast pos
  have above : ((m : ℚ) - 1 / 2) * 2 ^ q ≤ num / den := by
    rcases low with low | ⟨low, -⟩ <;> linarith
  have below : (num : ℚ) / den ≤ (m + 1 / 2) * 2 ^ q := by
    rcases high with high | ⟨high, -⟩ <;> linarith
  have hn : 0 < num := by
    apply Nat.pos_of_ne_zero
    rintro rfl
    have : (0 : ℚ) < ((m : ℚ) - 1 / 2) * 2 ^ q := by
      apply mul_pos _ unit
      linarith
    simp at above
    linarith
  have quantum := quantumOf_eq h regular hn hd above below
  have hd' : 0 < den * Nat.pow 2 q.toNat := Nat.mul_pos hd (Nat.two_pow_pos _)
  rw [nearest_of_pos grid hn, quantum]
  congr 1
  apply roundedQuotient_eq hd'
  · rw [shifted_div, lt_div_iff₀ unit, eq_div_iff unit.ne']
    exact low.imp (fun lt => by linarith) fun eq => ⟨by linarith [eq.1], eq.2⟩
  · rw [shifted_div, div_lt_iff₀ unit, div_eq_iff unit.ne']
    exact high.imp (fun lt => by linarith) fun eq => ⟨by linarith [eq.1], eq.2⟩

end BinaryGrid

end MarkerLattice
