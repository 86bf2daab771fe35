import MarkerLattice.Proofs.Binary32.Halfway
import MarkerLattice.Proofs.Binary32.Scale
import MarkerLattice.Proofs.Binary32.Shortest

/-! The shortest decimal of a magnitude keeps away from the ends of its rounding interval,
so that small errors on the way back do not leave the interval. -/
namespace MarkerLattice

namespace PowerOfTen

theorem two_zpow_le_or_far {e : ℤ} (low : -53 ≤ e) (high : e ≤ 38) (j : ℤ) :
    (2 : ℚ) ^ j ≤ 10 ^ e ∨ (2 ^ 20 + 1) * (10 : ℚ) ^ e ≤ 2 ^ 20 * 2 ^ j := by
  have table : ∀ i : Fin 92, (2 ^ 20 + 1) * num (i.val - 53) ≤ 2 ^ 20 * (4 * den (i.val - 53)) := by
    decide +kernel
  rcases le_or_gt ((2 : ℚ) ^ j) (10 ^ e) with reached | below
  · exact .inl reached
  right
  obtain ⟨i, hi⟩ := Int.eq_ofNat_of_zero_le (show 0 ≤ e + 53 by omega)
  have row := table ⟨i, by omega⟩
  rw [show ((i : ℕ) : ℤ) - 53 = e by omega] at row
  have row' : (2 ^ 20 + 1) * (num e : ℚ) ≤ 2 ^ 20 * (4 * den e) := by exact_mod_cast row
  have order : log2 e < j :=
    (zpow_lt_zpow_iff_right₀ (one_lt_two (α := ℚ))).mp ((log2_spec e).1.trans_lt below)
  have top : (2 : ℚ) ^ (log2 e - 1) * 4 ≤ 2 ^ j := by
    calc (2 : ℚ) ^ (log2 e - 1) * 4 = 2 ^ (log2 e + 1) := by
          rw [show log2 e + 1 = log2 e - 1 + 2 by omega, zpow_add₀ two_ne_zero]
          norm_num
      _ ≤ 2 ^ j := zpow_le_zpow_right₀ one_le_two (by omega)
  have den' : (0 : ℚ) < den e := by exact_mod_cast den_pos e
  rw [← num_div_den]
  calc (2 ^ 20 + 1) * ((num e : ℚ) / den e * 2 ^ (log2 e - 1))
      = (2 ^ 20 + 1) * num e / den e * 2 ^ (log2 e - 1) := by ring
    _ ≤ 2 ^ 20 * (4 * (den e : ℚ)) / den e * 2 ^ (log2 e - 1) := by gcongr
    _ = 2 ^ 20 * (2 ^ (log2 e - 1) * 4) := by field_simp
    _ ≤ 2 ^ 20 * 2 ^ j := by gcongr

end PowerOfTen

namespace Binary32

variable {d : Dyadic}

/-- The two numbers of full length whose shortest decimals lie closest to a middle. -/
def IsRare (d : Dyadic) : Prop := d = ⟨11420669, -107⟩ ∨ d = ⟨11420670, -107⟩

theorem le_of_near {t s h : ℚ} (near : 2 * t ≤ s ∨ t + h ≤ s)
    (fine : (2 ^ 20 + 1) * s ≤ 2 ^ 20 * (2 * h)) (pos : 0 < h) : h ≤ 2 ^ 21 * (h - t) := by
  rcases near with near | near <;> linarith

theorem end_eq (lt : d.significand < 2 ^ 24) (pos : 0 < d.significand) {b : ℚ}
    (hb : b = d.toRat - d.half ∨ b = d.toRat + d.half) :
    ∃ m : ℕ, m < 2 ^ 25 ∧ (m = 2 * d.significand - 1 ∨ m = 2 * d.significand + 1) ∧
      b = m * 2 ^ (d.quantum - 1) := by
  rcases hb with rfl | rfl
  · refine ⟨2 * d.significand - 1, by omega, .inl rfl, ?_⟩
    rw [Dyadic.toRat, Dyadic.half, zpow_sub_one₀ two_ne_zero, Nat.cast_sub (by omega)]
    push_cast
    ring
  · refine ⟨2 * d.significand + 1, by omega, .inr rfl, ?_⟩
    rw [Dyadic.toRat, Dyadic.half, zpow_sub_one₀ two_ne_zero]
    push_cast
    ring

theorem regular_of (h : BinaryGrid.single.Canonical d) (regular : BinaryGrid.single.IsRegular d)
    (pos : 0 < d.significand) : (RoundingInterval.of d).lowRat = d.toRat - d.half := by
  have least := h.low
  have plain : ¬(d.significand = 0x800000 ∧ -149 < d.quantum) := by
    simp only [BinaryGrid.IsRegular, BinaryGrid.single] at regular least
    omega
  rw [RoundingInterval.lowRat_of pos, if_neg plain]

theorem within_foundDecimal (h : BinaryGrid.single.Canonical d) (pos : 0 < d.significand)
    (top : d.quantum ≤ 104) (regular : BinaryGrid.single.IsRegular d) :
    BinaryGrid.Within d (foundDecimal d).toRat := by
  have chosen := (foundDecimal_spec h pos top).1
  have inside := (RoundingInterval.contains_iff (RoundingInterval.proper_of pos) _).mp chosen.contains
  rw [regular_of h regular pos, RoundingInterval.highRat_of] at inside
  simp only [RoundingInterval.of, decide_eq_true_eq] at inside
  exact inside

/-- On a coarse grid the decimal is a multiple of a large power, which keeps off the ends. -/
theorem eq_or_apart (h : BinaryGrid.single.Canonical d) (pos : 0 < d.significand)
    (top : d.quantum ≤ 104) (rare : ¬IsRare d) {b : ℚ}
    (hb : b = d.toRat - d.half ∨ b = d.toRat + d.half)
    (reached : (2 : ℚ) ^ d.quantum ≤ 10 ^ (foundDecimal d).exponent) :
    (foundDecimal d).toRat = b ∨ 5 * b ≤ 2 ^ 54 * |(foundDecimal d).toRat - b| := by
  obtain ⟨-, -, last, -, -⟩ := foundDecimal_spec h pos top
  have least : -45 < (foundDecimal d).exponent := by
    apply (zpow_lt_zpow_iff_right₀ (show (1 : ℚ) < 10 by norm_num)).mp
    calc (10 : ℚ) ^ (-45 : ℤ) < 2 ^ (-149 : ℤ) := by norm_num
      _ ≤ 2 ^ d.quantum := zpow_le_zpow_right₀ one_le_two h.low
      _ ≤ _ := reached
  obtain ⟨m, short, odd, form⟩ := end_eq h.lt pos hb
  by_cases same : (foundDecimal d).toRat = b
  · exact .inl same
  right
  rw [form] at same ⊢
  refine PowerOfTen.gap least.le last short (by omega) (by simpa using reached) ?_ same
  rintro ⟨rfl, fine⟩
  apply rare
  obtain ⟨m, q⟩ := d
  simp only [IsRare, Dyadic.mk.injEq] at *
  omega

theorem end_or_apart (h : BinaryGrid.single.Canonical d) (pos : 0 < d.significand)
    (top : d.quantum ≤ 104) (regular : BinaryGrid.single.IsRegular d) (rare : ¬IsRare d) {b : ℚ}
    (hb : b = d.toRat - d.half ∨ b = d.toRat + d.half) :
    (foundDecimal d).toRat = b ∨ 5 * b ≤ 2 ^ 54 * |(foundDecimal d).toRat - b| ∨
      d.half ≤ 2 ^ 21 * |(foundDecimal d).toRat - b| := by
  obtain ⟨chosen, first, last, -, -⟩ := foundDecimal_spec h pos top
  obtain ⟨inside, inside'⟩ := within_foundDecimal h pos top regular
  have near := chosen.near
  rw [regular_of h regular pos, RoundingInterval.highRat_of, RoundingInterval.valueRat_of] at near
  have half := d.half_pos
  have low : d.toRat - d.half ≤ (foundDecimal d).toRat := by
    rcases inside with lt | ⟨eq, -⟩ <;> linarith
  have high : (foundDecimal d).toRat ≤ d.toRat + d.half := by
    rcases inside' with lt | ⟨eq, -⟩ <;> linarith
  have coarse := eq_or_apart h pos top rare hb
  have settled {t : ℚ} (near : 2 * t ≤ 10 ^ (foundDecimal d).exponent ∨
      t + d.half ≤ 10 ^ (foundDecimal d).exponent)
      (left : d.half - t ≤ |(foundDecimal d).toRat - b|) :
      (foundDecimal d).toRat = b ∨ 5 * b ≤ 2 ^ 54 * |(foundDecimal d).toRat - b| ∨
        d.half ≤ 2 ^ 21 * |(foundDecimal d).toRat - b| := by
    -- Either the decimal grid is coarser than the binary one, or it is finer by a margin.
    rcases PowerOfTen.two_zpow_le_or_far first last d.quantum with reached | far
    · exact (coarse reached).imp_right .inl
    · have fine := le_of_near near (by rw [Dyadic.half]; linarith) half
      exact .inr (.inr (fine.trans (by linarith)))
  rcases near with ⟨le, -, near⟩ | ⟨lt, -, near⟩
  · rcases hb with rfl | rfl
    · exact settled (near.imp_right fun _ => by linarith) (le_abs.mpr (.inl (by linarith)))
    · refine .inr (.inr ?_)
      have far : d.half ≤ |(foundDecimal d).toRat - (d.toRat + d.half)| :=
        le_abs.mpr (.inr (by linarith))
      linarith
  · rcases hb with rfl | rfl
    · refine .inr (.inr ?_)
      have far : d.half ≤ |(foundDecimal d).toRat - (d.toRat - d.half)| :=
        le_abs.mpr (.inl (by linarith))
      linarith
    · exact settled (near.imp_right fun _ => by linarith) (le_abs.mpr (.inr (by linarith)))

/-- What is off the decimal by less than `5 / 2 ^ 54` of it is rounded as the decimal is. -/
theorem within_of_close (h : BinaryGrid.single.Canonical d) (pos : 0 < d.significand)
    (top : d.quantum ≤ 104) (regular : BinaryGrid.single.IsRegular d) (rare : ¬IsRare d) {z : ℚ}
    (close : 2 ^ 55 * |z - (foundDecimal d).toRat| ≤ 9 * (foundDecimal d).toRat)
    (whole : ∀ b, b = d.toRat - d.half ∨ b = d.toRat + d.half → (foundDecimal d).toRat = b → z = b) :
    BinaryGrid.Within d z := by
  obtain ⟨inside, inside'⟩ := within_foundDecimal h pos top regular
  have half := d.half_pos
  have size := d.toRat_lt_half h.lt
  have nearer {b : ℚ} (hb : b = d.toRat - d.half ∨ b = d.toRat + d.half)
      (off : (foundDecimal d).toRat ≠ b) :
      |z - (foundDecimal d).toRat| < |(foundDecimal d).toRat - b| := by
    have distance : 0 < |(foundDecimal d).toRat - b| := abs_pos.mpr (sub_ne_zero.mpr off)
    have reach := le_abs_self ((foundDecimal d).toRat - b)
    rcases end_or_apart h pos top regular rare hb with same | apart | apart
    · exact absurd same off
    · linarith
    · have high : (foundDecimal d).toRat ≤ d.toRat + d.half := by
        rcases inside' with lt | ⟨eq, -⟩ <;> linarith
      linarith
  constructor
  · rcases inside with lt | ⟨eq, even⟩
    · have := nearer (.inl rfl) lt.ne'
      rw [abs_of_pos (sub_pos.mpr lt), abs_lt] at this
      exact .inl (by linarith)
    · exact .inr ⟨(whole _ (.inl rfl) eq.symm).symm, even⟩
  · rcases inside' with lt | ⟨eq, even⟩
    · have := nearer (.inr rfl) lt.ne
      rw [abs_of_neg (sub_neg.mpr lt), abs_lt] at this
      exact .inl (by linarith)
    · exact .inr ⟨whole _ (.inr rfl) eq, even⟩

end Binary32

end MarkerLattice
