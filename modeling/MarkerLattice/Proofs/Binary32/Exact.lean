import Mathlib
import MarkerLattice.Binary32
import MarkerLattice.Proofs.Rounding

/-! Single precision numbers as rational numbers. Whatever is representable is
computed exactly: whole numbers, sums, differences and floors. -/
namespace MarkerLattice.Binary32

section Parts

variable (negative : Bool) {m : ℕ}

theorem toNat_bits_ofParts (h : m < 0x80000000) :
    (ofParts negative m).bits.toNat = (if negative then 0x80000000 else 0) + m := by
  simp only [ofParts, UInt32.toNat_ofNat']
  split <;> omega

theorem magnitudeBits_ofParts (h : m < 0x80000000) :
    (ofParts negative m).magnitudeBits = m := by
  rw [magnitudeBits, toNat_bits_ofParts negative h]
  split <;> omega

theorem negative_ofParts (h : m < 0x80000000) : (ofParts negative m).negative = negative := by
  simp only [Binary32.negative, UInt32.le_iff_toNat_le, toNat_bits_ofParts negative h]
  cases negative
  · simpa using h
  · simp

end Parts

theorem magnitudeBits_neg (x : Binary32) : (-x).magnitudeBits = x.magnitudeBits := by
  change (x.bits ^^^ 0x80000000).toNat % 2 ^ 31 = x.bits.toNat % 2 ^ 31
  rw [UInt32.toNat_xor, Nat.xor_mod_two_pow]
  exact Nat.xor_zero _

theorem negative_eq (x : Binary32) : x.negative = decide (x.bits.toNat / 2 ^ 31 = 1) := by
  have bound := x.bits.toNat_lt
  simp only [negative, UInt32.le_iff_toNat_le]
  apply decide_eq_decide.mpr
  change 0x80000000 ≤ x.bits.toNat ↔ _
  omega

theorem negative_neg (x : Binary32) : (-x).negative = !x.negative := by
  have bound := x.bits.toNat_lt
  have flip : (-x).bits.toNat / 2 ^ 31 = x.bits.toNat / 2 ^ 31 ^^^ 1 := by
    change (x.bits ^^^ 0x80000000).toNat / 2 ^ 31 = _
    rw [UInt32.toNat_xor, Nat.xor_div_two_pow]
    rfl
  rw [negative_eq, negative_eq, flip]
  obtain h | h : x.bits.toNat / 2 ^ 31 = 0 ∨ x.bits.toNat / 2 ^ 31 = 1 := by omega
  · rw [h]
    rfl
  · rw [h]
    rfl

theorem value_of_isFinite {x : Binary32} (h : x.isFinite = true) :
    x.value = .finite x.negative x.magnitude := by
  have bound : x.magnitudeBits < 0x7f800000 := by simpa [isFinite] using h
  have number : x.isNaN = false := by simpa [isNaN] using bound.le
  simp [value, number, h]

theorem isFinite_of_value {x : Binary32} {s : Bool} {d : Dyadic}
    (h : x.value = .finite s d) : x.isFinite = true := by
  unfold value at h
  split at h
  · simp at h
  · split at h
    · assumption
    · simp at h

/-- A canonical point of the grid below the upper end is kept by its bits. -/
theorem value_ofParts_packMagnitude (negative : Bool) {d : Dyadic}
    (h : BinaryGrid.single.Canonical d) (top : d.quantum ≤ 104) :
    (ofParts negative (packMagnitude d)).value = .finite negative d := by
  obtain ⟨k, q⟩ := d
  obtain ⟨lt, low, long⟩ := h
  simp only [BinaryGrid.single] at lt low long
  simp only at top
  have pack : packMagnitude ⟨k, q⟩ = (q + 149).toNat * 0x800000 + k := by
    simp only [packMagnitude]
    omega
  have bound : packMagnitude ⟨k, q⟩ < 0x7f800000 := by
    rw [pack]
    omega
  have bits := magnitudeBits_ofParts negative (bound.trans (by decide))
  have finite : (ofParts negative (packMagnitude ⟨k, q⟩)).isFinite = true := by
    simpa [isFinite, bits] using bound
  rw [value_of_isFinite finite, negative_ofParts negative (bound.trans (by decide))]
  simp only [magnitude, bits]
  simp only [pack, Value.finite.injEq, true_and]
  split
  · rw [Dyadic.mk.injEq]
    omega
  · rw [Dyadic.mk.injEq]
    omega

def signed (negative : Bool) (r : ℚ) : ℚ := if negative then -r else r

@[simp] theorem signed_zero (negative : Bool) : signed negative 0 = 0 := by
  cases negative <;> simp [signed]

def toRat (x : Binary32) : ℚ := signed x.negative x.magnitude.toRat

structure Denotes (x : Binary32) (r : ℚ) : Prop where
  finite : x.isFinite = true
  toRat : x.toRat = r

theorem denotes_of_value {x : Binary32} {s : Bool} {d : Dyadic}
    (h : x.value = .finite s d) : x.Denotes (signed s d.toRat) := by
  have finite := isFinite_of_value h
  rw [value_of_isFinite finite, Value.finite.injEq] at h
  exact ⟨finite, by rw [toRat, h.1, h.2]⟩

/-- The rational numbers of single precision. -/
def Representable (r : ℚ) : Prop :=
  ∃ (m p : ℤ), r = m * 2 ^ p ∧ m.natAbs < 2 ^ 24 ∧ -149 ≤ p ∧ p ≤ 104

theorem representable_natCast {n : ℕ} (h : n < 2 ^ 24) : Representable n :=
  ⟨n, 0, by simp, by simpa only [Int.natAbs_natCast], by decide, by decide⟩

theorem representable_half {n : ℤ} (h : n.natAbs < 2 ^ 24) : Representable (n / 2) :=
  ⟨n, -1, by simp [div_eq_mul_inv], h, by decide, by decide⟩

theorem denotes_signedZero (negative : Bool) : (signedZero negative).Denotes 0 := by
  have bits : packMagnitude ⟨0, -149⟩ = 0 := by simp [packMagnitude]
  have canonical : BinaryGrid.single.Canonical ⟨0, -149⟩ := BinaryGrid.single.canonical_zero
  have denotes := denotes_of_value (value_ofParts_packMagnitude negative canonical (by decide))
  rwa [bits, Dyadic.toRat, Nat.cast_zero, zero_mul, signed_zero] at denotes

theorem denotes_ofQuotient (negative : Bool) {num den : ℕ} (hd : 0 < den)
    (fits : Representable ((num : ℚ) / den)) :
    (ofQuotient negative num den).Denotes (signed negative (num / den)) := by
  obtain ⟨m, p, value, lt, low, top⟩ := fits
  have whole : (m : ℚ) = m.natAbs := by
    have nonneg : (0 : ℚ) ≤ m * 2 ^ p := value ▸ by positivity
    have pos : 0 ≤ m := by
      exact_mod_cast nonneg_of_mul_nonneg_left nonneg (by positivity)
    rw [← Int.cast_natCast, Int.natAbs_of_nonneg pos]
  obtain ⟨canonical, le, exact⟩ := BinaryGrid.single.nearest_exact hd (whole ▸ value) lt low
  rw [← exact]
  exact denotes_of_value (value_ofParts_packMagnitude negative canonical (le.trans top))

theorem signed_natAbs (n : ℤ) (c : ℚ) :
    signed (decide (n < 0)) (n.natAbs * c) = n * c := by
  by_cases h : n < 0
  · have : (n.natAbs : ℤ) = -n := by omega
    rw [← Int.cast_natCast, this]
    simp [signed, h]
  · have : (n.natAbs : ℤ) = n := by omega
    rw [← Int.cast_natCast, this]
    simp [signed, h]

theorem Representable.natAbs {n : ℤ} {q : ℤ} (h : Representable (n * 2 ^ q)) :
    Representable (n.natAbs * 2 ^ q) := by
  obtain ⟨m, p, value, bounds⟩ := h
  by_cases sign : n < 0
  · have flip : (n.natAbs : ℤ) = -n := by omega
    refine ⟨-m, p, ?_, by simpa using bounds⟩
    rw [← Int.cast_natCast, flip, Int.cast_neg, Int.cast_neg, neg_mul, neg_mul, value]
  · have same : (n.natAbs : ℤ) = n := by omega
    refine ⟨m, p, ?_, bounds⟩
    rw [← Int.cast_natCast, same, value]

theorem denotes_ofDyadic (n q : ℤ) (fits : Representable (n * 2 ^ q)) :
    (ofDyadic (decide (n < 0)) ⟨n.natAbs, q⟩).Denotes (n * 2 ^ q) := by
  have quotient := Dyadic.numerator_div_denominator ⟨n.natAbs, q⟩
  have fits' : Representable (Dyadic.toRat ⟨n.natAbs, q⟩) := fits.natAbs
  rw [← quotient] at fits'
  have denotes := denotes_ofQuotient (decide (n < 0)) (Dyadic.denominator_pos ⟨n.natAbs, q⟩)
    fits'
  rwa [quotient, Dyadic.toRat, signed_natAbs] at denotes

theorem denotes_ofInt {n : ℤ} (h : n.natAbs < 2 ^ 24) : (ofInt n).Denotes n := by
  have fits : Representable ((n.natAbs : ℚ) / (1 : ℕ)) := by
    simpa only [Nat.cast_one, div_one] using representable_natCast h
  have denotes := denotes_ofQuotient (decide (n < 0)) one_pos fits
  have value := signed_natAbs n 1
  rw [mul_one, mul_one] at value
  rwa [Nat.cast_one, div_one, value] at denotes

theorem denotes_zero : zero.Denotes 0 := denotes_signedZero false

theorem denotes_half : half.Denotes (1 / 2) := by
  have value : half.value = .finite false ⟨0x800000, -24⟩ := by decide +kernel
  have denotes := denotes_of_value value
  norm_num [Dyadic.toRat, signed] at denotes ⊢
  exact denotes

theorem denotes_one : one.Denotes 1 := by
  have value : one.value = .finite false ⟨0x800000, -23⟩ := by decide +kernel
  have denotes := denotes_of_value value
  norm_num [Dyadic.toRat, signed] at denotes ⊢
  exact denotes

theorem signedOn_mul (s : Bool) (d : Dyadic) {q : ℤ} (h : q ≤ d.quantum) :
    (Value.signedOn s d q : ℚ) * 2 ^ q = signed s d.toRat := by
  have rise := two_zpow_of_nonneg (Int.sub_nonneg.mpr h)
  have magnitude : (d.significand * 2 ^ (d.quantum - q).toNat : ℚ) * 2 ^ q = d.toRat := by
    rw [← rise, mul_assoc, ← zpow_add₀ two_ne_zero, sub_add_cancel, Dyadic.toRat]
  cases s
  · simpa [Value.signedOn, signed] using magnitude
  · simpa [Value.signedOn, signed] using magnitude

theorem denotes_addFinite (s : Bool) (a : Dyadic) (t : Bool) (b : Dyadic)
    (fits : Representable (signed s a.toRat + signed t b.toRat)) :
    (addFinite s a t b).Denotes (signed s a.toRat + signed t b.toRat) := by
  obtain ⟨q, hq⟩ : ∃ q, q = min a.quantum b.quantum := ⟨_, rfl⟩
  have left := signedOn_mul s a (q := q) (by omega)
  have right := signedOn_mul t b (q := q) (by omega)
  simp only [addFinite, ← hq]
  rw [← left, ← right, ← add_mul, ← Int.cast_add] at fits ⊢
  generalize Value.signedOn s a q + Value.signedOn t b q = sum at *
  split
  next none => simpa [none] using denotes_signedZero (s && t)
  next => exact denotes_ofDyadic sum q fits

namespace Denotes

variable {x y : Binary32} {a b : ℚ}

theorem add (hx : x.Denotes a) (hy : y.Denotes b) (fits : Representable (a + b)) :
    (x + y).Denotes (a + b) := by
  have sum : x + y = addFinite x.negative x.magnitude y.negative y.magnitude := by
    change Binary32.add x y = _
    simp only [Binary32.add, value_of_isFinite hx.finite, value_of_isFinite hy.finite]
  rw [← hx.toRat, ← hy.toRat] at fits ⊢
  rw [sum]
  exact denotes_addFinite _ _ _ _ fits

theorem neg (hx : x.Denotes a) : (-x).Denotes (-a) where
  finite := by
    have finite := hx.finite
    rwa [isFinite, magnitudeBits_neg]
  toRat := by
    rw [← hx.toRat, Binary32.toRat, Binary32.toRat, magnitude, magnitudeBits_neg, negative_neg]
    cases x.negative <;> simp [signed, magnitude]

theorem sub (hx : x.Denotes a) (hy : y.Denotes b) (fits : Representable (a - b)) :
    (x - y).Denotes (a - b) := by
  rw [sub_eq_add_neg] at fits ⊢
  exact hx.add hy.neg fits

theorem floorInt_eq (s : Bool) (d : Dyadic) : floorInt s d = ⌊signed s d.toRat⌋ := by
  have quotient := Dyadic.numerator_div_denominator d
  simp only [floorInt]
  rw [Int.fdiv_eq_ediv_of_nonneg _ (Int.natCast_nonneg _), ← Rat.floor_intCast_div_natCast,
    ← quotient]
  cases s <;> simp [signed, neg_div]

theorem floor (hx : x.Denotes a) (fits : ⌊a⌋.natAbs < 2 ^ 24) : x.floor.Denotes ⌊a⌋ := by
  rw [← hx.toRat, Binary32.toRat, ← floorInt_eq] at fits ⊢
  simp only [Binary32.floor, value_of_isFinite hx.finite]
  split
  next none => simpa [none] using denotes_signedZero x.negative
  next => exact denotes_ofInt fits

theorem wholePart_eq {s : Bool} {d : Dyadic} {n : ℤ} (h : signed s d.toRat = n) :
    wholePart s d = n := by
  have nonneg : 0 ≤ d.toRat := by
    unfold Dyadic.toRat
    positivity
  obtain ⟨k, hk⟩ : ∃ k : ℕ, n = if s then -(k : ℤ) else k := by
    cases s
    · have above : (0 : ℚ) ≤ n := by rw [← h]; simpa [signed] using nonneg
      exact Int.eq_ofNat_of_zero_le (by exact_mod_cast above)
    · have below : (n : ℚ) ≤ 0 := by rw [← h]; simpa [signed] using nonneg
      obtain ⟨k, hk⟩ := Int.eq_ofNat_of_zero_le (Int.neg_nonneg.mpr (by exact_mod_cast below))
      exact ⟨k, by simp only [if_true]; omega⟩
  have whole : d.toRat = k := by
    cases s <;> simpa [signed, hk] using h
  have exact : d.numerator = k * d.denominator := by
    have hd : (d.denominator : ℚ) ≠ 0 := by exact_mod_cast d.denominator_pos.ne'
    rw [← Dyadic.numerator_div_denominator, div_eq_iff hd] at whole
    exact_mod_cast whole
  rw [wholePart, exact, Nat.mul_div_cancel k d.denominator_pos, hk]

theorem toInt {n : ℤ} (hx : x.Denotes n) (fits : n.natAbs < 2 ^ 31) : x.toInt = n := by
  have value := value_of_isFinite hx.finite
  rw [Binary32.toInt, toIntWithin, value]
  simp only
  rw [wholePart_eq hx.toRat]
  have lo : Int32.minValue.toInt = -2 ^ 31 := by decide
  have hi : Int32.maxValue.toInt = 2 ^ 31 - 1 := by decide
  omega

end Denotes

end MarkerLattice.Binary32
