import Mathlib
import MarkerLattice.Proofs.Binary32.Error
import MarkerLattice.Proofs.Binary32.Halfway

/-! Sums and whole parts of any size. A rounded result stays between the numbers of single
precision that hold the exact one; floors are exact, and whole parts are held within 32
bits. -/
namespace MarkerLattice.Binary32

variable {x y : Binary32} {lo hi : ℚ}

section Between

theorem Representable.exists_ofQuotient {r : ℚ} (h : Representable r) :
    ∃ (s : Bool) (num den : ℕ), 0 < den ∧ signed s (num / den) = r ∧
      (ofQuotient s num den).Denotes r := by
  obtain ⟨m, p, rfl, bounds⟩ := h
  refine ⟨decide (m < 0), _, _, Dyadic.denominator_pos ⟨m.natAbs, p⟩, ?_,
    denotes_ofDyadic m p ⟨m, p, rfl, bounds⟩⟩
  rw [Dyadic.numerator_div_denominator, Dyadic.toRat, signed_natAbs]

/-- Rounding does not leave the interval between two numbers of single precision. -/
theorem ofQuotient_between {s : Bool} {num den : ℕ} (hd : 0 < den) (low : Representable lo)
    (high : Representable hi) (above : lo ≤ signed s (num / den))
    (below : signed s (num / den) ≤ hi) :
    (ofQuotient s num den).isFinite = true ∧ lo ≤ (ofQuotient s num den).toRat ∧
      (ofQuotient s num den).toRat ≤ hi := by
  obtain ⟨sl, nl, dl, posl, valuel, denotesl⟩ := low.exists_ofQuotient
  obtain ⟨sh, nh, dh, posh, valueh, denotesh⟩ := high.exists_ofQuotient
  have lower := (le_iff.mp (ofQuotient_mono posl hd (valuel.trans_le above))).2.2
  have upper := (le_iff.mp (ofQuotient_mono hd posh (below.trans_eq valueh.symm))).2.2
  have first := rank_bounds_of_isFinite denotesl.finite
  have last := rank_bounds_of_isFinite denotesh.finite
  refine ⟨?_, denotesl.toRat ▸ toRat_mono lower, denotesh.toRat ▸ toRat_mono upper⟩
  rcases isFinite_or_infinity (isNaN_ofQuotient s num den) with finite | ⟨-, bottom⟩ | ⟨-, top⟩
  · exact finite
  · omega
  · omega

theorem ofQuotient_zero (s : Bool) (den : ℕ) : ofQuotient s 0 den = signedZero s := by
  simp [ofQuotient, BinaryGrid.nearest, packMagnitude, BinaryGrid.single, signedZero]

theorem add_eq_ofQuotient (hx : x.isFinite = true) (hy : y.isFinite = true) :
    ∃ (s : Bool) (num den : ℕ), 0 < den ∧ x + y = ofQuotient s num den ∧
      signed s (num / den) = x.toRat + y.toRat := by
  obtain ⟨q, hq⟩ : ∃ q, q = min x.magnitude.quantum y.magnitude.quantum := ⟨_, rfl⟩
  have left := signedOn_mul x.negative x.magnitude (q := q) (by omega)
  have right := signedOn_mul y.negative y.magnitude (q := q) (by omega)
  change ∃ (s : Bool) (num den : ℕ), 0 < den ∧ Binary32.add x y = _ ∧ _
  simp only [Binary32.add, value_of_isFinite hx, value_of_isFinite hy, addFinite, ← hq]
  rw [toRat, toRat, ← left, ← right, ← add_mul, ← Int.cast_add]
  generalize Value.signedOn x.negative x.magnitude q + Value.signedOn y.negative y.magnitude q = sum
  split
  next none =>
    exact ⟨x.negative && y.negative, 0, 1, one_pos, (ofQuotient_zero _ 1).symm, by simp [none]⟩
  next =>
    refine ⟨decide (sum < 0), _, _, Dyadic.denominator_pos ⟨sum.natAbs, q⟩, rfl, ?_⟩
    rw [Dyadic.numerator_div_denominator, Dyadic.toRat, signed_natAbs]

/-- A sum is rounded to the point of the grid that it is no farther from than half a
quantum. -/
theorem denotes_add_of_within {s : Bool} {d : Dyadic} (hx : x.isFinite = true)
    (hy : y.isFinite = true) (h : BinaryGrid.single.Canonical d)
    (regular : BinaryGrid.single.IsRegular d) (pos : 0 < d.significand) (top : d.quantum ≤ 104)
    (sign : 0 < signed s (x.toRat + y.toRat))
    (within : BinaryGrid.Within d (signed s (x.toRat + y.toRat))) :
    (x + y).Denotes (signed s d.toRat) := by
  obtain ⟨t, num, den, hd, sum, value⟩ := add_eq_ofQuotient hx hy
  have nonneg : (0 : ℚ) ≤ num / den := by positivity
  rw [← value] at sign within
  obtain rfl : t = s := by
    cases s <;> cases t <;> simp_all [signed] <;> linarith
  have exact : signed t (signed t ((num : ℚ) / den)) = num / den := by
    cases t <;> simp [signed]
  rw [exact] at within
  rw [sum, ofQuotient, BinaryGrid.nearest_of_within h regular pos hd within]
  exact denotes_of_value (value_ofParts_packMagnitude t h top)

end Between

section Whole

def truncate (r : ℚ) : ℤ := if 0 ≤ r then ⌊r⌋ else ⌈r⌉

theorem natAbs_truncate_le {r : ℚ} {b : ℕ} (h : |r| ≤ b) : (truncate r).natAbs ≤ b := by
  unfold truncate
  split
  · exact natAbs_floor_le h
  · rw [← Int.natAbs_neg, ← Int.floor_neg]
    exact natAbs_floor_le (by rwa [abs_neg])

def hold (n : ℤ) : ℤ := max Int32.minValue.toInt (min Int32.maxValue.toInt n)

theorem hold_of_natAbs_lt {n : ℤ} (h : n.natAbs < 2 ^ 31) : hold n = n := by
  have lo : Int32.minValue.toInt = -2 ^ 31 := by decide
  have hi : Int32.maxValue.toInt = 2 ^ 31 - 1 := by decide
  rw [hold, lo, hi]
  omega

theorem truncate_intCast (n : ℤ) : truncate n = n := by
  simp [truncate]

theorem representable_magnitude (h : x.isFinite = true) : Representable x.magnitude.toRat := by
  obtain ⟨canonical, -⟩ := x.canonical_magnitude
  exact ⟨x.magnitude.significand, x.magnitude.quantum, rfl, canonical.lt, canonical.low,
    (packMagnitude_magnitude h).2⟩

theorem Representable.signed {r : ℚ} (h : Representable r) (s : Bool) :
    Representable (signed s r) := by
  obtain ⟨m, p, rfl, short, bounds⟩ := h
  cases s with
  | false => exact ⟨m, p, rfl, short, bounds⟩
  | true => exact ⟨-m, p, by simp [Binary32.signed], by rwa [Int.natAbs_neg], bounds⟩

theorem representable_toRat (h : x.isFinite = true) : Representable x.toRat :=
  (representable_magnitude h).signed x.negative

theorem representable_intCast {n : ℤ} (h : n.natAbs ≤ 2 ^ 24) : Representable n := by
  obtain short | rfl | rfl : n.natAbs < 2 ^ 24 ∨ n = 2 ^ 24 ∨ n = -2 ^ 24 := by omega
  · exact ⟨n, 0, by simp, short, by decide, by decide⟩
  · exact ⟨1, 24, by norm_num, by decide, by decide, by decide⟩
  · exact ⟨-1, 24, by norm_num, by decide, by decide, by decide⟩

/-- Numbers with places behind the point are small enough for their floors, and the others
are floors themselves. -/
theorem representable_floor {r : ℚ} (h : Representable r) : Representable ⌊r⌋ := by
  obtain ⟨m, p, value, short, low, top⟩ := h
  rcases le_or_gt 0 p with coarse | fine
  · obtain ⟨j, rfl⟩ := Int.eq_ofNat_of_zero_le coarse
    have whole : r = (m * 2 ^ j : ℤ) := by
      rw [value, zpow_natCast]
      push_cast
      rfl
    rw [whole, Int.floor_intCast, ← whole]
    exact ⟨m, j, value, short, low, top⟩
  · apply representable_intCast
    apply natAbs_floor_le
    have unit : (2 : ℚ) ^ p ≤ 1 := zpow_le_one_of_nonpos₀ one_le_two fine.le
    have whole := abs_intCast_le short.le
    rw [value, abs_mul, abs_of_pos (by positivity : (0 : ℚ) < 2 ^ p)]
    nlinarith [abs_nonneg (m : ℚ)]

theorem wholePart_eq_truncate (s : Bool) (d : Dyadic) :
    wholePart s d = truncate (signed s d.toRat) := by
  have whole : ((d.numerator / d.denominator : ℕ) : ℤ) = ⌊d.toRat⌋ := by
    rw [← Dyadic.numerator_div_denominator]
    exact (Rat.floor_natCast_div_natCast _ _).symm
  have nonneg := toRat_nonneg d
  simp only [wholePart, whole, truncate]
  cases s with
  | false => simp [signed, nonneg]
  | true =>
    simp only [signed, if_true, neg_nonneg]
    split
    next none => simp [none.antisymm nonneg]
    next => rw [Int.ceil_neg]

theorem toInt_eq (h : x.isFinite = true) : x.toInt = hold (truncate x.toRat) := by
  rw [toInt, toIntWithin, value_of_isFinite h]
  exact congrArg hold (wholePart_eq_truncate _ _)

theorem denotes_ofInt_of_representable {n : ℤ} (h : Representable n) : (ofInt n).Denotes n := by
  have fits : Representable ((n.natAbs : ℚ) / (1 : ℕ)) := by
    have whole : Representable (n * 2 ^ (0 : ℤ)) := by rwa [zpow_zero, mul_one]
    simpa using whole.natAbs
  have denotes := denotes_ofQuotient (decide (n < 0)) one_pos fits
  have value := signed_natAbs n 1
  rw [mul_one, mul_one] at value
  rwa [Nat.cast_one, div_one, value] at denotes

theorem denotes_floor (h : x.isFinite = true) : x.floor.Denotes ⌊x.toRat⌋ := by
  have whole : floorInt x.negative x.magnitude = ⌊x.toRat⌋ := Denotes.floorInt_eq _ _
  simp only [Binary32.floor, value_of_isFinite h, whole]
  split
  next none => simpa [none] using denotes_signedZero x.negative
  next => exact denotes_ofInt_of_representable (representable_floor (representable_toRat h))

theorem toInt_floor (h : x.isFinite = true) : x.floor.toInt = hold ⌊x.toRat⌋ := by
  have floor := denotes_floor h
  rw [toInt_eq floor.finite, floor.toRat, truncate_intCast]

end Whole

section Divided

variable {c : Binary32}

theorem zero_lt_of_one_le (h : one.le c = true) : zero.lt c = true := by
  obtain ⟨-, number, le⟩ := le_iff.mp h
  have one : one.rank = 0x3f800000 := by decide +kernel
  have zero : zero.rank = 0 ∧ zero.isNaN = false := by decide +kernel
  simp only [lt, zero.1, zero.2, number, Bool.not_false, Bool.true_and, decide_eq_true_eq]
  omega

theorem upper_one (h : one.le c = true) : c.upper one = c := by
  obtain ⟨nan, number, le⟩ := le_iff.mp h
  unfold upper
  split
  · rfl
  next stay =>
    have same : one.rank = c.rank := by
      simp only [lt, nan, number, Bool.not_false, Bool.true_and, decide_eq_true_eq] at stay
      omega
    exact eq_of_rank_eq (by decide +kernel) same

theorem upper_one_of_lt (number : c.isNaN = false) (h : one.le c = false) : c.upper one = one := by
  have nan : one.isNaN = false := by decide
  have below : c.rank < one.rank := by
    simpa [le, nan, number] using h
  unfold upper
  split
  next above =>
    simp only [lt, nan, number, Bool.not_false, Bool.true_and, decide_eq_true_eq] at above
    omega
  next => rfl

theorem div_one_eq (hx : x.isFinite = true) : x / one = x := by
  obtain ⟨num, den, hd, quotient, value⟩ :=
    div_eq_ofQuotient hx denotes_one.finite (by decide) (by decide +kernel)
  have unit : one.magnitude.toRat = 1 := denotes_one.toRat
  rw [unit, div_one] at value
  have denotes := denotes_ofQuotient x.negative hd (value ▸ representable_magnitude hx)
  rw [quotient]
  apply eq_of_toRat_eq
  · exact negative_ofQuotient _ _ _
  · rw [denotes.toRat, value, toRat]

theorem ofInt_add_zero {n : ℤ} (h : n.natAbs < 2 ^ 24) : ofInt n + zero = ofInt n := by
  by_cases none : n = 0
  · subst none
    decide +kernel
  obtain ⟨s, num, den, hd, sum, value⟩ :=
    add_eq_ofQuotient (denotes_ofInt h).finite denotes_zero.finite
  rw [(denotes_ofInt h).toRat, denotes_zero.toRat, add_zero] at value
  have nonneg : (0 : ℚ) ≤ num / den := by positivity
  have sign : s = decide (n < 0) := by
    cases s with
    | false =>
      have above : (0 : ℚ) ≤ n := value ▸ nonneg
      have above : 0 ≤ n := by exact_mod_cast above
      simpa using above
    | true =>
      have below : (n : ℚ) ≤ 0 := value ▸ neg_nonpos.mpr nonneg
      have below : n ≤ 0 := by exact_mod_cast below
      simp
      omega
  have size : (num : ℚ) / den = n.natAbs / (1 : ℕ) := by
    rw [Nat.cast_one, div_one, Nat.cast_natAbs, Int.cast_abs, ← value, abs_signed,
      abs_of_nonneg nonneg]
  rw [sum, ofInt, sign, ofQuotient_congr _ hd one_pos size]

theorem isFinite_div (hx : x.isFinite = true) (h : one.le c = true) :
    (x / c).isFinite = true := by
  obtain ⟨sign, nonzero, finite | infinite⟩ := positive_of_lt (zero_lt_of_one_le h)
  · obtain ⟨num, den, hd, quotient, value⟩ := div_eq_ofQuotient hx finite sign nonzero
    have unit : 1 ≤ c.magnitude.toRat := by
      have le := (le_iff_toRat denotes_one.finite finite).mp h
      rwa [denotes_one.toRat, toRat, sign, signed, if_neg (by decide)] at le
    have low : 0 ≤ (num : ℚ) / den := by positivity
    have high : (num : ℚ) / den ≤ x.magnitude.toRat := by
      rw [value]
      exact div_le_self (toRat_nonneg _) unit
    have fits := representable_toRat hx
    have none : Representable 0 := by simpa using representable_intCast (n := 0) (by decide)
    rw [toRat] at fits
    rw [quotient]
    cases negative : x.negative with
    | false =>
      simp only [negative, signed] at fits
      exact (ofQuotient_between (s := false) hd none fits low high).1
    | true =>
      simp only [negative, signed, if_true] at fits
      exact (ofQuotient_between (s := true) hd fits none (neg_le_neg high) (neg_nonpos.mpr low)).1
  · rw [div_eq_signedZero hx infinite]
    exact (denotes_signedZero _).finite

end Divided

end MarkerLattice.Binary32
