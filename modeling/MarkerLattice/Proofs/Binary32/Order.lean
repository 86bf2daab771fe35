import Mathlib
import MarkerLattice.Proofs.Binary32.Exact

/-! Rounding keeps the order. Division by a positive number, floors and
conversions to whole numbers do not turn two numbers around, up to and including
the infinities. -/
namespace MarkerLattice

/-- Numbers given by sign and magnitude are ordered by any measure that orders
their magnitudes and keeps zero. -/
theorem signed_le_signed {α β : Type} [AddCommGroup α] [LinearOrder α] [IsOrderedAddMonoid α]
    [AddCommGroup β] [LinearOrder β] [IsOrderedAddMonoid β] {s s' : Bool} {a a' : α} {b b' : β}
    (ha : 0 ≤ a) (ha' : 0 ≤ a') (hb : 0 ≤ b) (hb' : 0 ≤ b') (up : a ≤ a' → b ≤ b')
    (down : a' ≤ a → b' ≤ b) (zero : a = 0 → b = 0) (zero' : a' = 0 → b' = 0)
    (h : (if s then -a else a) ≤ if s' then -a' else a') :
    (if s then -b else b) ≤ if s' then -b' else b' := by
  cases s <;> cases s'
  · exact up h
  · have low : a ≤ 0 := le_trans h (neg_nonpos.mpr ha')
    have low' : a' ≤ 0 := neg_nonneg.mp (ha.trans h)
    simp [zero (low.antisymm ha), zero' (low'.antisymm ha')]
  · exact (neg_nonpos.mpr hb).trans hb'
  · exact neg_le_neg (down (neg_le_neg_iff.mp h))

namespace Binary32

variable {x y c : Binary32}

theorem rank_eq (x : Binary32) :
    x.rank = if x.negative then -(x.magnitudeBits : ℤ) else x.magnitudeBits := rfl

theorem le_iff : x.le y = true ↔ x.isNaN = false ∧ y.isNaN = false ∧ x.rank ≤ y.rank := by
  simp [le, and_assoc]

theorem isNaN_of_isFinite (h : x.isFinite = true) : x.isNaN = false := by
  simp only [isFinite, decide_eq_true_eq] at h
  simpa [isNaN] using h.le

section Infinite

theorem rank_of_infinity {s : Bool} (h : x.value = .infinity s) :
    x.isNaN = false ∧ x.rank = if s then -0x7f800000 else 0x7f800000 := by
  unfold value at h
  split at h
  · cases h
  next number =>
    split at h
    · cases h
    next infinite =>
      obtain rfl : x.negative = s := by simpa using h
      simp only [isNaN, isFinite, decide_eq_true_eq] at number infinite
      have bits : x.magnitudeBits = 0x7f800000 := by omega
      simp [isNaN, rank, bits]

theorem rank_bounds (h : x.isNaN = false) : -0x7f800000 ≤ x.rank ∧ x.rank ≤ 0x7f800000 := by
  simp only [isNaN, decide_eq_false_iff_not] at h
  unfold rank
  split <;> omega

theorem rank_bounds_of_isFinite (h : x.isFinite = true) :
    -0x7f800000 < x.rank ∧ x.rank < 0x7f800000 := by
  simp only [isFinite, decide_eq_true_eq] at h
  unfold rank
  split <;> omega

theorem isFinite_or_infinity (h : x.isNaN = false) : x.isFinite = true ∨
    x.value = .infinity true ∧ x.rank = -0x7f800000 ∨
      x.value = .infinity false ∧ x.rank = 0x7f800000 := by
  have ends (finite : x.isFinite = false) : x.value = .infinity x.negative := by
    simp [value, h, finite]
  cases finite : x.isFinite with
  | true => exact .inl rfl
  | false =>
    have rank := (rank_of_infinity (ends finite)).2
    cases negative : x.negative <;> simp_all

theorem cases_of_le (h : x.le y = true) : x.isFinite = true ∧ y.isFinite = true ∨
    x.value = .infinity true ∨ y.value = .infinity false := by
  obtain ⟨hx, hy, le⟩ := le_iff.mp h
  rcases isFinite_or_infinity hx with finite | ⟨low, -⟩ | ⟨-, top⟩
  · rcases isFinite_or_infinity hy with finite' | ⟨-, bottom⟩ | ⟨high, -⟩
    · exact .inl ⟨finite, finite'⟩
    · have above := (rank_bounds_of_isFinite finite).1
      omega
    · exact .inr (.inr high)
  · exact .inr (.inl low)
  · rcases isFinite_or_infinity hy with finite' | ⟨-, bottom⟩ | ⟨high, -⟩
    · have below := (rank_bounds_of_isFinite finite').2
      omega
    · omega
    · exact .inr (.inr high)

theorem le_of_low (low : x.value = .infinity true) (h : y.isNaN = false) : x.le y = true := by
  obtain ⟨number, rank⟩ := rank_of_infinity low
  exact le_iff.mpr ⟨number, h, rank ▸ (rank_bounds h).1⟩

theorem le_of_high (high : y.value = .infinity false) (h : x.isNaN = false) :
    x.le y = true := by
  obtain ⟨number, rank⟩ := rank_of_infinity high
  exact le_iff.mpr ⟨h, number, rank ▸ (rank_bounds h).2⟩

end Infinite

section Rounded

variable {s s' : Bool} {num den num' den' : ℕ}

theorem packMagnitude_le (d : Dyadic) : packMagnitude d ≤ 0x7f800000 := min_le_right _ _

theorem packMagnitude_mono (hd : 0 < den) (hd' : 0 < den')
    (h : (num : ℚ) / den ≤ num' / den') :
    packMagnitude (BinaryGrid.single.nearest num den) ≤
      packMagnitude (BinaryGrid.single.nearest num' den') := by
  have order := BinaryGrid.single.nearest_mono hd hd' h
  have low := BinaryGrid.single.minQuantum_le_nearest num den
  have fits := BinaryGrid.single.significand_nearest_le num hd
  have long := BinaryGrid.single.le_significand_nearest num' (k := 23) rfl hd'
  generalize BinaryGrid.single.nearest num den = d at *
  generalize BinaryGrid.single.nearest num' den' = d' at *
  simp only [BinaryGrid.single] at low fits long
  -- A step of the quantum counts `2 ^ 23`: as much as a carry, and as little as a
  -- long significand.
  unfold packMagnitude
  omega

theorem ofQuotient_congr (s : Bool) (hd : 0 < den) (hd' : 0 < den')
    (h : (num : ℚ) / den = num' / den') : ofQuotient s num den = ofQuotient s num' den' := by
  rw [ofQuotient, ofQuotient, (packMagnitude_mono hd hd' h.le).antisymm
    (packMagnitude_mono hd' hd h.ge)]

theorem isNaN_ofQuotient (s : Bool) (num den : ℕ) : (ofQuotient s num den).isNaN = false := by
  have le := packMagnitude_le (BinaryGrid.single.nearest num den)
  simp only [isNaN, ofQuotient, magnitudeBits_ofParts s (le.trans_lt (by decide))]
  simpa using le

theorem negative_ofQuotient (s : Bool) (num den : ℕ) : (ofQuotient s num den).negative = s :=
  negative_ofParts s ((packMagnitude_le _).trans_lt (by decide))

theorem rank_ofQuotient (s : Bool) (num den : ℕ) : (ofQuotient s num den).rank =
    if s then -(packMagnitude (BinaryGrid.single.nearest num den) : ℤ)
    else packMagnitude (BinaryGrid.single.nearest num den) := by
  have small := (packMagnitude_le (BinaryGrid.single.nearest num den)).trans_lt
    (show 0x7f800000 < 0x80000000 by decide)
  rw [rank_eq, ofQuotient, negative_ofParts s small, magnitudeBits_ofParts s small]

theorem ofQuotient_mono (hd : 0 < den) (hd' : 0 < den')
    (h : signed s (num / den) ≤ signed s' (num' / den')) :
    (ofQuotient s num den).le (ofQuotient s' num' den') = true := by
  have zero {n d : ℕ} (hd : 0 < d) (h : (n : ℚ) / d = 0) :
      (packMagnitude (BinaryGrid.single.nearest n d) : ℤ) = 0 := by
    have hd' : (d : ℚ) ≠ 0 := by exact_mod_cast hd.ne'
    obtain rfl : n = 0 := by simpa [hd'] using h
    simp [BinaryGrid.nearest, packMagnitude, BinaryGrid.single]
  refine le_iff.mpr ⟨isNaN_ofQuotient _ _ _, isNaN_ofQuotient _ _ _, ?_⟩
  rw [rank_ofQuotient, rank_ofQuotient]
  refine signed_le_signed (by positivity) (by positivity) (by positivity) (by positivity)
    (fun le => ?_) (fun le => ?_) (zero hd) (zero hd') h
  · exact_mod_cast packMagnitude_mono hd hd' le
  · exact_mod_cast packMagnitude_mono hd' hd le

theorem ofInt_mono {m n : ℤ} (h : m ≤ n) : (ofInt m).le (ofInt n) = true := by
  have value (k : ℤ) : signed (decide (k < 0)) (k.natAbs / (1 : ℕ)) = k := by
    simpa using signed_natAbs k 1
  apply ofQuotient_mono one_pos one_pos
  rw [value, value]
  exact_mod_cast h

end Rounded

section Decoded

theorem canonical_magnitude (x : Binary32) : BinaryGrid.single.Canonical x.magnitude ∧
    (x.magnitudeBits : ℤ) = (x.magnitude.quantum + 149) * 2 ^ 23 + x.magnitude.significand := by
  have split := Nat.div_add_mod x.magnitudeBits 0x800000
  have rest := Nat.mod_lt x.magnitudeBits (show 0x800000 > 0 by decide)
  simp only [magnitude]
  split
  next subnormal =>
    refine ⟨⟨?_, ?_, .inl rfl⟩, ?_⟩ <;> simp only [BinaryGrid.single] <;> omega
  next normal =>
    refine ⟨⟨?_, ?_, .inr ?_⟩, ?_⟩ <;> simp only [BinaryGrid.single] <;> omega

theorem ofParts_magnitudeBits (x : Binary32) : ofParts x.negative x.magnitudeBits = x := by
  have bound := x.bits.toNat_lt
  have small : x.magnitudeBits < 0x80000000 := Nat.mod_lt _ (by decide)
  have bits := toNat_bits_ofParts x.negative small
  have same : (ofParts x.negative x.magnitudeBits).bits = x.bits := by
    apply UInt32.toNat_inj.mp
    rw [bits, negative_eq, magnitudeBits]
    split <;> simp_all <;> omega
  exact Binary32.mk.injEq .. ▸ same

theorem eq_of_rank_eq (pos : 0 < x.rank) (h : x.rank = y.rank) : x = y := by
  have parts {z : Binary32} (pos : 0 < z.rank) :
      z.negative = false ∧ (z.magnitudeBits : ℤ) = z.rank := by
    unfold rank at pos ⊢
    split at pos
    · omega
    next positive => exact ⟨by simpa using positive, (if_neg positive).symm⟩
  obtain ⟨sign, bits⟩ := parts pos
  obtain ⟨sign', bits'⟩ := parts (h ▸ pos)
  have same : x.magnitudeBits = y.magnitudeBits := by
    exact_mod_cast bits.trans (h.trans bits'.symm)
  rw [← ofParts_magnitudeBits x, ← ofParts_magnitudeBits y, sign, sign', same]

theorem packMagnitude_magnitude (finite : x.isFinite = true) :
    packMagnitude x.magnitude = x.magnitudeBits ∧ x.magnitude.quantum ≤ 104 := by
  obtain ⟨⟨lt, low, long⟩, bits⟩ := x.canonical_magnitude
  simp only [isFinite, decide_eq_true_eq] at finite
  simp only [BinaryGrid.single] at lt low long
  rw [packMagnitude]
  omega

theorem magnitude_strictMono (h : x.magnitudeBits < y.magnitudeBits) :
    x.magnitude.toRat < y.magnitude.toRat := by
  obtain ⟨canonical, bits⟩ := x.canonical_magnitude
  obtain ⟨canonical', bits'⟩ := y.canonical_magnitude
  obtain ⟨lt, low, long⟩ := canonical
  obtain ⟨lt', low', long'⟩ := canonical'
  simp only [BinaryGrid.single] at lt low long lt' low' long'
  unfold Dyadic.toRat
  generalize x.magnitude = d at *
  generalize y.magnitude = d' at *
  obtain same | above : d.quantum = d'.quantum ∨ d.quantum + 1 ≤ d'.quantum := by omega
  · have less : d.significand < d'.significand := by omega
    rw [same]
    gcongr
  · have half : (d.significand : ℚ) < 2 * d'.significand := by
      exact_mod_cast (show d.significand < 2 * d'.significand by omega)
    calc (d.significand : ℚ) * 2 ^ d.quantum < 2 * d'.significand * 2 ^ d.quantum := by gcongr
      _ = d'.significand * 2 ^ (d.quantum + 1) := by rw [zpow_add_one₀ two_ne_zero]; ring
      _ ≤ d'.significand * 2 ^ d'.quantum := by
        gcongr
        exact one_le_two

theorem magnitude_mono (h : x.magnitudeBits ≤ y.magnitudeBits) :
    x.magnitude.toRat ≤ y.magnitude.toRat := by
  rcases h.lt_or_eq with lt | same
  · exact (magnitude_strictMono lt).le
  · simp only [magnitude, same, le_refl]

theorem toRat_nonneg (d : Dyadic) : 0 ≤ d.toRat := by
  unfold Dyadic.toRat
  positivity

theorem significand_magnitude_eq_zero_iff :
    x.magnitude.significand = 0 ↔ x.magnitudeBits = 0 := by
  obtain ⟨canonical, bits⟩ := x.canonical_magnitude
  have long := canonical.long
  have low := canonical.low
  simp only [BinaryGrid.single] at long low
  omega

theorem toRat_mono (h : x.rank ≤ y.rank) : x.toRat ≤ y.toRat := by
  have zero {z : Binary32} (hz : (z.magnitudeBits : ℤ) = 0) : z.magnitude.toRat = 0 := by
    have none := significand_magnitude_eq_zero_iff.mpr (Int.natCast_eq_zero.mp hz)
    simp [Dyadic.toRat, none]
  refine signed_le_signed (by positivity) (by positivity) (toRat_nonneg _) (toRat_nonneg _)
    (fun le => ?_) (fun le => ?_) zero zero h
  · exact magnitude_mono (by exact_mod_cast le)
  · exact magnitude_mono (by exact_mod_cast le)

theorem toRat_magnitude_eq_zero_iff : x.magnitude.toRat = 0 ↔ x.magnitudeBits = 0 := by
  rw [← significand_magnitude_eq_zero_iff, Dyadic.toRat, mul_eq_zero, Nat.cast_eq_zero]
  exact or_iff_left (zpow_ne_zero _ two_ne_zero)

theorem rank_mono (h : x.toRat ≤ y.toRat) : x.rank ≤ y.rank := by
  have up {x y : Binary32} (le : x.magnitude.toRat ≤ y.magnitude.toRat) :
      (x.magnitudeBits : ℤ) ≤ y.magnitudeBits := by
    exact_mod_cast not_lt.mp (mt magnitude_strictMono (not_lt.mpr le))
  have zero {z : Binary32} (hz : z.magnitude.toRat = 0) : (z.magnitudeBits : ℤ) = 0 := by
    exact_mod_cast toRat_magnitude_eq_zero_iff.mp hz
  exact signed_le_signed (toRat_nonneg _) (toRat_nonneg _) (by positivity) (by positivity) up up
    zero zero h

theorem eq_of_toRat_eq (sign : x.negative = y.negative) (h : x.toRat = y.toRat) : x = y := by
  have same : x.magnitude.toRat = y.magnitude.toRat := by
    rw [toRat, toRat, sign] at h
    cases negative : y.negative <;> simpa [negative, signed] using h
  have bits : x.magnitudeBits = y.magnitudeBits := by
    rcases lt_trichotomy x.magnitudeBits y.magnitudeBits with lt | eq | gt
    · exact absurd same (magnitude_strictMono lt).ne
    · exact eq
    · exact absurd same (magnitude_strictMono gt).ne'
  rw [← ofParts_magnitudeBits x, ← ofParts_magnitudeBits y, sign, bits]

/-- Finite numbers compare as the rational numbers that they stand for. -/
theorem le_iff_toRat (hx : x.isFinite = true) (hy : y.isFinite = true) :
    x.le y = true ↔ x.toRat ≤ y.toRat := by
  rw [le_iff]
  exact ⟨fun h => toRat_mono h.2.2,
    fun h => ⟨isNaN_of_isFinite hx, isNaN_of_isFinite hy, rank_mono h⟩⟩

end Decoded

section Operations

theorem positive_of_lt (h : zero.lt c = true) : c.negative = false ∧
    c.magnitude.significand ≠ 0 ∧ (c.isFinite = true ∨ c.value = .infinity false) := by
  obtain ⟨⟨-, number⟩, above⟩ : (zero.isNaN = false ∧ c.isNaN = false) ∧ zero.rank < c.rank := by
    simpa [lt] using h
  change 0 < c.rank at above
  have positive : c.negative = false := by
    by_contra negative
    rw [rank, if_pos (by simpa using negative)] at above
    omega
  rw [rank, positive] at above
  refine ⟨positive, ?_, ?_⟩
  · rw [ne_eq, significand_magnitude_eq_zero_iff]
    simp at above
    omega
  · cases finite : c.isFinite <;> simp [value, number, finite, positive]

theorem div_eq_ofQuotient (hx : x.isFinite = true) (hc : c.isFinite = true)
    (positive : c.negative = false) (nonzero : c.magnitude.significand ≠ 0) :
    ∃ num den : ℕ, 0 < den ∧ x / c = ofQuotient x.negative num den ∧
      (num : ℚ) / den = x.magnitude.toRat / c.magnitude.toRat := by
  obtain ⟨p, hp⟩ : ∃ p, p = x.magnitude.quantum - c.magnitude.quantum := ⟨_, rfl⟩
  refine ⟨x.magnitude.significand * Nat.pow 2 p.toNat,
    c.magnitude.significand * Nat.pow 2 (-p).toNat,
    Nat.mul_pos (Nat.pos_of_ne_zero nonzero) (Nat.two_pow_pos _), ?_, ?_⟩
  · change Binary32.div x c = _
    simp only [Binary32.div, value_of_isFinite hx, value_of_isFinite hc, if_neg nonzero, positive,
      Bool.bne_false, hp, neg_sub]
  · have shift := zpow_eq_div 2 p
    rw [Dyadic.toRat, Dyadic.toRat, mul_div_mul_comm, ← zpow_sub₀ two_ne_zero, ← hp, shift]
    simp only [Nat.pow_eq]
    push_cast
    field_simp

theorem div_eq_signedZero (hx : x.isFinite = true) (hc : c.value = .infinity false) :
    x / c = signedZero x.negative := by
  change Binary32.div x c = _
  simp only [Binary32.div, value_of_isFinite hx, hc, Bool.bne_false]

theorem signed_div (s : Bool) (a b : ℚ) : signed s (a / b) = signed s a / b := by
  cases s <;> simp [signed, neg_div]

theorem rank_signedZero (s : Bool) :
    (signedZero s).isNaN = false ∧ (signedZero s).rank = 0 := by
  cases s <;> decide

/-- Division by a positive number keeps the order of finite numbers, also where a
quotient overflows or the divisor is infinite. -/
theorem div_le_div (hx : x.isFinite = true) (hy : y.isFinite = true) (hc : zero.lt c = true)
    (h : x.le y = true) : (x / c).le (y / c) = true := by
  obtain ⟨positive, nonzero, finite | infinite⟩ := positive_of_lt hc
  · obtain ⟨num, den, hd, quotient, value⟩ := div_eq_ofQuotient hx finite positive nonzero
    obtain ⟨num', den', hd', quotient', value'⟩ := div_eq_ofQuotient hy finite positive nonzero
    have le : x.toRat ≤ y.toRat := toRat_mono (le_iff.mp h).2.2
    have unit : 0 ≤ c.magnitude.toRat := toRat_nonneg _
    rw [quotient, quotient']
    apply ofQuotient_mono hd hd'
    rw [value, value', signed_div, signed_div]
    exact div_le_div_of_nonneg_right le unit
  · obtain ⟨number, rank⟩ := rank_signedZero x.negative
    obtain ⟨number', rank'⟩ := rank_signedZero y.negative
    rw [div_eq_signedZero hx infinite, div_eq_signedZero hy infinite]
    exact le_iff.mpr ⟨number, number', (rank.trans rank'.symm).le⟩

theorem rank_floor (hx : x.isFinite = true) :
    x.floor.isNaN = false ∧ x.floor.rank = (ofInt ⌊x.toRat⌋).rank := by
  have whole : floorInt x.negative x.magnitude = ⌊x.toRat⌋ := Denotes.floorInt_eq _ _
  simp only [floor, value_of_isFinite hx, whole]
  split
  next none =>
    obtain ⟨number, rank⟩ := rank_signedZero x.negative
    rw [none]
    exact ⟨number, rank.trans (by decide +kernel)⟩
  next => exact ⟨isNaN_ofQuotient _ _ _, rfl⟩

theorem floor_eq_self {s : Bool} (h : x.value = .infinity s) : x.floor = x := by
  simp only [floor, h]

theorem isNaN_floor (h : x.isNaN = false) : x.floor.isNaN = false := by
  rcases isFinite_or_infinity h with finite | ⟨low, -⟩ | ⟨high, -⟩
  · exact (rank_floor finite).1
  · rwa [floor_eq_self low]
  · rwa [floor_eq_self high]

theorem floor_mono (h : x.le y = true) : x.floor.le y.floor = true := by
  obtain ⟨hx, hy, le⟩ := le_iff.mp h
  rcases cases_of_le h with ⟨finite, finite'⟩ | low | high
  · obtain ⟨number, rank⟩ := rank_floor finite
    obtain ⟨number', rank'⟩ := rank_floor finite'
    have whole : ⌊x.toRat⌋ ≤ ⌊y.toRat⌋ := Int.floor_le_floor (toRat_mono le)
    refine le_iff.mpr ⟨number, number', ?_⟩
    rw [rank, rank']
    exact (le_iff.mp (ofInt_mono whole)).2.2
  · rw [floor_eq_self low]
    exact le_of_low low (isNaN_floor hy)
  · rw [floor_eq_self high]
    exact le_of_high high (isNaN_floor hx)

theorem toIntWithin_bounds {lo hi : ℤ} (le : lo ≤ hi) (h : x.isNaN = false) :
    lo ≤ x.toIntWithin lo hi ∧ x.toIntWithin lo hi ≤ hi := by
  unfold toIntWithin
  rcases isFinite_or_infinity h with finite | ⟨low, -⟩ | ⟨high, -⟩
  · rw [value_of_isFinite finite]
    dsimp only
    omega
  · simpa [low] using le
  · simpa [high] using le

theorem wholePart_mono (h : x.toRat ≤ y.toRat) :
    wholePart x.negative x.magnitude ≤ wholePart y.negative y.magnitude := by
  have whole (d : Dyadic) : d.numerator / d.denominator = ⌊d.toRat⌋₊ := by
    rw [← Dyadic.numerator_div_denominator, Nat.floor_div_eq_div]
  have zero {d : Dyadic} (h : d.toRat = 0) : ((d.numerator / d.denominator : ℕ) : ℤ) = 0 := by
    simp [whole, h]
  refine signed_le_signed (toRat_nonneg _) (toRat_nonneg _) (by positivity) (by positivity)
    (fun le => ?_) (fun le => ?_) zero zero h
  · rw [whole, whole]
    exact_mod_cast Nat.floor_le_floor le
  · rw [whole, whole]
    exact_mod_cast Nat.floor_le_floor le

theorem toInt_mono (h : x.le y = true) : x.toInt ≤ y.toInt := by
  have range : Int32.minValue.toInt ≤ Int32.maxValue.toInt := by decide
  obtain ⟨hx, hy, le⟩ := le_iff.mp h
  rcases cases_of_le h with ⟨finite, finite'⟩ | low | high
  · have whole := wholePart_mono (toRat_mono le)
    simp only [toInt, toIntWithin, value_of_isFinite finite, value_of_isFinite finite']
    omega
  · have bounds := toIntWithin_bounds range hy
    simpa [toInt, toIntWithin, low] using bounds.1
  · have bounds := toIntWithin_bounds range hx
    simpa [toInt, toIntWithin, high] using bounds.2

end Operations

section Bounds

theorem le_trans {z : Binary32} (hxy : x.le y = true) (hyz : y.le z = true) :
    x.le z = true := by
  rw [le_iff] at *
  exact ⟨hxy.1, hyz.2.1, hxy.2.2.trans hyz.2.2⟩

theorem le_refl (h : x.isNaN = false) : x.le x = true := le_iff.mpr ⟨h, h, Int.le_refl _⟩

theorem lt_eq_not_le (hx : x.isNaN = false) (hy : y.isNaN = false) : x.lt y = !y.le x := by
  simp only [lt, le, hx, hy, Bool.not_false, Bool.true_and, ← decide_not, not_le]

theorem le_eq_false_iff :
    x.le y = false ↔ y.lt x = true ∨ x.isNaN = true ∨ y.isNaN = true := by
  cases hx : x.isNaN with
  | true => simp [le, hx]
  | false =>
    cases hy : y.isNaN with
    | true => simp [le, hy]
    | false => simp [lt_eq_not_le hy hx]

theorem not_le_of_lt {z : Binary32} (hyx : y.le x = true) (hz : z.lt y = true) :
    x.le z = false := by
  have ordered := le_iff.mp hyx
  have number : z.isNaN = false := by
    simp only [lt, Bool.and_eq_true, Bool.not_eq_true'] at hz
    exact hz.1.1
  rw [lt_eq_not_le number ordered.1, Bool.not_eq_true'] at hz
  exact Bool.eq_false_iff.mpr fun le => Bool.eq_false_iff.mp hz (le_trans hyx le)

theorem le_total (hx : x.isNaN = false) (hy : y.isNaN = false) :
    x.le y = true ∨ y.le x = true :=
  (Int.le_total x.rank y.rank).imp (fun le => le_iff.mpr ⟨hx, hy, le⟩)
    fun le => le_iff.mpr ⟨hy, hx, le⟩

theorem lower_le (hx : x.isNaN = false) (hy : y.isNaN = false) :
    (x.lower y).le x = true ∧ (x.lower y).le y = true := by
  rw [lower, lt_eq_not_le hx hy]
  cases above : y.le x with
  | true => exact ⟨above, le_refl hy⟩
  | false => exact ⟨le_refl hx, (le_total hx hy).resolve_right (by simp [above])⟩

theorem le_upper (hx : x.isNaN = false) (hy : y.isNaN = false) :
    x.le (x.upper y) = true ∧ y.le (x.upper y) = true := by
  rw [upper, lt_eq_not_le hy hx]
  cases below : x.le y with
  | true => exact ⟨below, le_refl hy⟩
  | false => exact ⟨le_refl hx, (le_total hx hy).resolve_left (by simp [below])⟩

theorem isFinite_lower (hx : x.isFinite = true) (hy : y.isFinite = true) :
    (x.lower y).isFinite = true := by
  unfold lower
  split <;> assumption

theorem isFinite_upper (hx : x.isFinite = true) (hy : y.isFinite = true) :
    (x.upper y).isFinite = true := by
  unfold upper
  split <;> assumption

/-- The ends of a range: in order, or one and the same, as after a NaN. -/
def Spans (x y : Binary32) : Prop := x = y ∨ x.le y = true

/-- A range stays one when it is widened. After a NaN it starts anew. -/
theorem Spans.widen (h : x.Spans y) (p : Binary32) : (x.lower p).Spans (y.upper p) := by
  have anew (z : Binary32) (h : z.isNaN = true ∨ p.isNaN = true) :
      z.lower p = p ∧ z.upper p = p := by
    rcases h with h | h <;> simp [lower, upper, lt, h]
  have number : x.isNaN = y.isNaN := by
    rcases h with same | le
    · rw [same]
    · obtain ⟨hx, hy, -⟩ := le_iff.mp le
      rw [hx, hy]
  by_cases nan : x.isNaN = true ∨ p.isNaN = true
  · exact .inl ((anew x nan).1.trans (anew y (number ▸ nan)).2.symm)
  · obtain ⟨hx, hp⟩ : x.isNaN = false ∧ p.isNaN = false := by simpa using nan
    exact .inr (le_trans (lower_le hx hp).2 (le_upper (number ▸ hx) hp).2)

end Bounds

end Binary32

end MarkerLattice
