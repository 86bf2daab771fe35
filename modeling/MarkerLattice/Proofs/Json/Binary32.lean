import MarkerLattice.Proofs.Binary32.Apart
import MarkerLattice.Proofs.Binary32.Order
import MarkerLattice.Proofs.Json.Double
import MarkerLattice.Proofs.Json.Written

/-! Finite single precision numbers are read back from their shortest decimals, although
the way back rounds twice: first to double precision, then to single. The first rounding is
too small to leave the rounding interval, and exact where the decimal is an end of it. The
powers of two, whose intervals are lopsided, are computed one by one. -/
namespace MarkerLattice

namespace JsonNumber

open Binary32 (foundDecimal shortestDecimal packMagnitude)

/-- A decimal that is a short binary number has a small exponent: its power of five is
within one of the two significands. -/
theorem natAbs_le_of_eq {c m : ℕ} {e p : ℤ} (same : (c : ℚ) * 10 ^ e = m * 2 ^ p) (pos : 0 < c)
    (small : c ≤ 10 ^ 9) (pos' : 0 < m) (short : m < 2 ^ 25) : e.natAbs ≤ 22 := by
  have scaled : c * 10 ^ e.toNat * 2 ^ (-p).toNat = m * 2 ^ p.toNat * 10 ^ (-e).toNat := by
    rw [zpow_eq_div 10, zpow_eq_div 2, mul_div_assoc', mul_div_assoc',
      div_eq_div_iff (by positivity) (by positivity)] at same
    exact_mod_cast same
  have ten (k : ℕ) : 10 ^ k = 5 ^ k * 2 ^ k := by
    rw [← mul_pow]
    norm_num
  have bound {k n a : ℕ} (divides : 5 ^ k ∣ n * 2 ^ a) (pos : 0 < n) (small : n < 5 ^ 23) :
      k ≤ 22 := by
    have coprime : Nat.Coprime (5 ^ k) (2 ^ a) := Nat.Coprime.pow k a (by norm_num)
    have le := Nat.le_of_dvd pos (coprime.dvd_of_dvd_mul_right divides)
    exact Nat.lt_succ_iff.mp ((Nat.pow_lt_pow_iff_right (by decide : 1 < 5)).mp (le.trans_lt small))
  rcases le_total 0 e with up | down
  · have flat : (-e).toNat = 0 := by omega
    rw [flat, pow_zero, mul_one, ten] at scaled
    have divides : 5 ^ e.toNat ∣ m * 2 ^ p.toNat :=
      ⟨c * 2 ^ e.toNat * 2 ^ (-p).toNat, by rw [← scaled]; ring⟩
    have := bound divides pos' (short.trans (by norm_num))
    omega
  · have flat : e.toNat = 0 := by omega
    rw [flat, pow_zero, mul_one, ten] at scaled
    have divides : 5 ^ (-e).toNat ∣ c * 2 ^ (-p).toNat :=
      ⟨m * 2 ^ p.toNat * 2 ^ (-e).toNat, by rw [scaled]; ring⟩
    have := bound divides pos (small.trans_lt (by norm_num))
    omega

/-- Through double precision, the digits and the power of ten round to the magnitude. -/
def Settles (d : Dyadic) (n : ℕ) (e : ℤ) : Prop :=
  packMagnitude (BinaryGrid.single.nearest (scaledDouble n e).numerator
    (scaledDouble n e).denominator) = packMagnitude d

instance (d : Dyadic) (n : ℕ) (e : ℤ) : Decidable (Settles d n e) := by
  unfold Settles
  infer_instance

/-- The digits and the power of ten in which a decimal is written: its own or, for a whole
decimal, all its digits and a zero behind the point. -/
inductive IsWritten (D : Decimal) : ℕ → ℤ → Prop
  | plain : IsWritten D D.coefficient D.exponent
  | whole (least : 0 ≤ D.exponent) (few : D.exponent ≤ 13) :
      IsWritten D (D.coefficient * 10 ^ (D.exponent.toNat + 1)) (-1)

theorem IsWritten.toRat {D : Decimal} {n : ℕ} {e : ℤ} (h : IsWritten D n e) :
    (n : ℚ) * 10 ^ e = D.toRat := by
  cases h with
  | plain => rfl
  | whole least _ =>
    obtain ⟨k, hk⟩ := Int.eq_ofNat_of_zero_le least
    rw [Decimal.toRat, hk]
    push_cast
    simp [pow_succ, mul_assoc]

section Magnitude

variable {d : Dyadic} {n : ℕ} {e : ℤ}

theorem foundDecimal_bounds (h : BinaryGrid.single.Canonical d) (pos : 0 < d.significand)
    (top : d.quantum ≤ 104) : (2 : ℚ) ^ (-249 : ℤ) ≤ (foundDecimal d).toRat ∧
      (foundDecimal d).toRat < 2 ^ 190 := by
  obtain ⟨-, first, last, positive, small⟩ := Binary32.foundDecimal_spec h pos top
  have one : (1 : ℚ) ≤ (foundDecimal d).coefficient := by exact_mod_cast positive
  have most : ((foundDecimal d).coefficient : ℚ) ≤ 10 ^ 9 := by exact_mod_cast small
  rw [Decimal.toRat]
  constructor
  · calc (2 : ℚ) ^ (-249 : ℤ) ≤ 1 * 10 ^ (-53 : ℤ) := by norm_num
      _ ≤ _ := by
        gcongr
        norm_num
  · calc ((foundDecimal d).coefficient : ℚ) * 10 ^ (foundDecimal d).exponent
        ≤ 10 ^ 9 * 10 ^ (38 : ℤ) := by
          gcongr
          norm_num
      _ < 2 ^ 190 := by norm_num

theorem shortestDecimal_spec (h : BinaryGrid.single.Canonical d) (pos : 0 < d.significand)
    (top : d.quantum ≤ 104) : (shortestDecimal d).toRat = (foundDecimal d).toRat ∧
      -53 ≤ (shortestDecimal d).exponent ∧ (shortestDecimal d).exponent ≤ 47 ∧
      0 < (shortestDecimal d).coefficient ∧ (shortestDecimal d).coefficient ≤ 10 ^ 9 := by
  obtain ⟨-, first, last, positive, most⟩ := Binary32.foundDecimal_spec h pos top
  obtain ⟨same, smaller, low, high⟩ := Decimal.trimmed_spec 9 (foundDecimal d)
  change (shortestDecimal d).toRat = _ at same
  refine ⟨same, first.trans low, high.trans (by omega), ?_, smaller.trans most⟩
  apply Nat.pos_of_ne_zero
  intro zero
  have found : 0 < (foundDecimal d).toRat := by
    have : (0 : ℚ) < (foundDecimal d).coefficient := by exact_mod_cast positive
    unfold Decimal.toRat
    positivity
  rw [← same, Decimal.toRat, zero] at found
  simp at found

theorem settles_of_isRegular (h : BinaryGrid.single.Canonical d) (pos : 0 < d.significand)
    (top : d.quantum ≤ 104) (regular : BinaryGrid.single.IsRegular d) (rare : ¬Binary32.IsRare d)
    (short : n < 2 ^ 53) (written : IsWritten (shortestDecimal d) n e) : Settles d n e := by
  obtain ⟨found, -, -, positive, most⟩ := shortestDecimal_spec h pos top
  have value := written.toRat.trans found
  have error := scaledDouble_error short (value ▸ (foundDecimal_bounds h pos top).1)
  rw [value] at error
  have within : BinaryGrid.Within d (scaledDouble n e).toRat := by
    -- An end of the interval is a short binary number, so its power of ten is exact.
    refine Binary32.within_of_close h pos top regular rare error fun b hb same => ?_
    obtain ⟨m, short', odd, form⟩ := Binary32.end_eq h.lt pos hb
    have near : e.natAbs ≤ 22 := by
      cases written with
      | plain => exact natAbs_le_of_eq (value.trans (same.trans form)) positive most (by omega) short'
      | whole => decide
    have least := h.low
    simp only [BinaryGrid.single] at least
    have exact' : (n : ℚ) * 10 ^ e = m * 2 ^ (d.quantum - 1) := value.trans (same.trans form)
    rw [scaledDouble_exact short near exact' (short'.trans (by norm_num)) (by omega), value, same]
  rw [Settles, BinaryGrid.nearest_of_within h regular pos (Dyadic.denominator_pos _)
    (by rwa [Dyadic.numerator_div_denominator])]

def BothSettle (d : Dyadic) : Prop :=
  let D := shortestDecimal d
  Settles d D.coefficient D.exponent ∧
    (0 ≤ D.exponent → D.exponent ≤ 13 → Settles d (D.coefficient * 10 ^ (D.exponent.toNat + 1)) (-1))

instance (d : Dyadic) : Decidable (BothSettle d) := by
  unfold BothSettle
  infer_instance

theorem BothSettle.settles (h : BothSettle d) (written : IsWritten (shortestDecimal d) n e) :
    Settles d n e := by
  cases written with
  | plain => exact h.1
  | whole least few => exact h.2 least few

theorem bothSettle_power : ∀ i : Fin 253, BothSettle ⟨0x800000, i.val - 148⟩ := by
  decide +kernel

theorem bothSettle_rare (rare : Binary32.IsRare d) : BothSettle d := by
  rcases rare with rfl | rfl <;> decide +kernel

theorem bothSettle_of_not_isRegular (h : BinaryGrid.single.Canonical d)
    (irregular : ¬BinaryGrid.single.IsRegular d) (top : d.quantum ≤ 104) : BothSettle d := by
  obtain ⟨lt, low, long⟩ := h
  simp only [BinaryGrid.IsRegular, BinaryGrid.single] at irregular lt low long
  obtain ⟨i, hi⟩ := Int.eq_ofNat_of_zero_le (show 0 ≤ d.quantum + 148 by omega)
  have power := bothSettle_power ⟨i, by omega⟩
  have significand : 0x800000 = d.significand := by omega
  have quantum : (i : ℤ) - 148 = d.quantum := by omega
  dsimp only at power
  rwa [significand, quantum] at power

theorem settles_shortestDecimal (h : BinaryGrid.single.Canonical d) (pos : 0 < d.significand)
    (top : d.quantum ≤ 104) (short : n < 2 ^ 53) (written : IsWritten (shortestDecimal d) n e) :
    Settles d n e := by
  by_cases rare : Binary32.IsRare d
  · exact (bothSettle_rare rare).settles written
  by_cases regular : BinaryGrid.single.IsRegular d
  · exact settles_of_isRegular h pos top regular rare short written
  · exact (bothSettle_of_not_isRegular h regular top).settles written

end Magnitude

section Read

variable {x : Binary32}

theorem ofParts?_of_settles {n : ℕ} {e : ℤ} (finite : x.isFinite = true)
    (settles : Settles x.magnitude n e) (short : n < 2 ^ 53) (near : e.natAbs ≤ 308)
    (large : (2 : ℚ) ^ (-249 : ℤ) ≤ n * 10 ^ e) (small : (n : ℚ) * 10 ^ e < 2 ^ 190) :
    ofParts? x.negative n e = some x := by
  rw [Settles, (Binary32.packMagnitude_magnitude finite).1] at settles
  rw [ofParts?, scaleDouble_eq short near large small, Option.map_some, Binary32.ofDyadic,
    Binary32.ofQuotient, settles, Binary32.ofParts_magnitudeBits]

theorem negative_ofDigits (negative : Bool) (digits : List Digit) (top : ℤ) :
    (ofDigits negative digits top).negative = negative := by
  unfold ofDigits
  split
  · split <;> rfl
  · rfl

theorem signedZero_of_significand (zero : x.magnitude.significand = 0) :
    Binary32.signedZero x.negative = x := by
  rw [Binary32.signedZero, ← Binary32.significand_magnitude_eq_zero_iff.mp zero,
    Binary32.ofParts_magnitudeBits]

theorem toBinary32?_zero (negative : Bool) : (ofDigits negative [0] 0).Sound ∧
    (ofDigits negative [0] 0).toBinary32? = some (.signedZero negative) := by
  have form : ofDigits negative [0] 0 = ⟨negative, [0], [0], none⟩ := by cases negative <;> rfl
  have counts : (ofDigits negative [0] 0).Counts 0 (-1) := by
    rw [form]
    exact ⟨⟨rfl, nofun⟩, .inl (by simp), rfl, rfl, nofun⟩
  refine ⟨counts.sound, ?_⟩
  rw [counts.toBinary32? (by decide), form, ofParts?, scaleDouble]
  cases negative <;> decide +kernel

/-- Digits that count a written form of the shortest decimal are read as the number. -/
theorem Counts.reads {n : JsonNumber} {c : ℕ} {e : ℤ} (counts : n.Counts c e)
    (negative : n.negative = x.negative) (finite : x.isFinite = true)
    (pos : 0 < x.magnitude.significand) (short : c < 2 ^ 53)
    (written : IsWritten (shortestDecimal x.magnitude) c e) :
    n.Sound ∧ n.toBinary32? = some x := by
  obtain ⟨-, top⟩ := Binary32.packMagnitude_magnitude finite
  obtain ⟨canonical, -⟩ := x.canonical_magnitude
  obtain ⟨found, first, last, -, -⟩ := shortestDecimal_spec canonical pos top
  obtain ⟨large, small⟩ := foundDecimal_bounds canonical pos top
  have value := written.toRat.trans found
  have near : e.natAbs ≤ 308 := by
    cases written with
    | plain => omega
    | whole => decide
  rw [counts.toBinary32? (short.trans (by decide)), negative]
  exact ⟨counts.sound, ofParts?_of_settles finite
    (settles_shortestDecimal canonical pos top short written) short near (value ▸ large)
    (value ▸ small)⟩

theorem ofBinary32?_reads (finite : x.isFinite = true) :
    ∃ n, ofBinary32? x = some n ∧ n.Sound ∧ n.toBinary32? = some x := by
  obtain ⟨-, top⟩ := Binary32.packMagnitude_magnitude finite
  obtain ⟨canonical, -⟩ := x.canonical_magnitude
  rw [ofBinary32?, Binary32.value_of_isFinite finite]
  dsimp only
  split
  next zero =>
    obtain ⟨sound, back⟩ := toBinary32?_zero x.negative
    exact ⟨_, rfl, sound, back.trans (by rw [signedZero_of_significand zero])⟩
  next nonzero =>
    have pos : 0 < x.magnitude.significand := Nat.pos_of_ne_zero nonzero
    obtain ⟨-, first, last, positive, most⟩ := shortestDecimal_spec canonical pos top
    obtain ⟨D, hD⟩ : ∃ D, D = shortestDecimal x.magnitude := ⟨_, rfl⟩
    rw [← hD] at first last positive most ⊢
    obtain ⟨d, rest, digits, nonzero⟩ := Digit.ofNat_eq_cons positive
    have length : (Digit.ofNat D.coefficient).length = rest.length + 1 := by
      rw [digits, List.length_cons]
    have low : 10 ^ rest.length ≤ D.coefficient := by
      rw [← Digit.toNat_ofNat D.coefficient, digits]
      exact Digit.pow_length_le nonzero rest
    have high : D.coefficient < 10 ^ (rest.length + 1) := by
      simpa only [length, Digit.toNat_ofNat] using Digit.toNat_lt (Digit.ofNat D.coefficient)
    have size : rest.length ≤ 9 :=
      (Nat.pow_le_pow_iff_right (by decide : 1 < 10)).mp (low.trans most)
    have near : (D.exponent + (Digit.ofNat D.coefficient).length - 1).natAbs < 0x80000000 := by omega
    have read := counts_ofDigits x.negative digits nonzero near
    rw [Digit.toNat_ofNat] at read
    refine ⟨_, rfl, ?_⟩
    rcases read with counts | ⟨least, few, counts⟩
    · exact counts.reads (negative_ofDigits ..) finite pos (by omega) (hD ▸ .plain)
    · have short : D.coefficient * 10 ^ (D.exponent.toNat + 1) < 2 ^ 53 := by
        calc D.coefficient * 10 ^ (D.exponent.toNat + 1)
            < 10 ^ (rest.length + 1) * 10 ^ (D.exponent.toNat + 1) := by gcongr
          _ = 10 ^ (rest.length + 1 + (D.exponent.toNat + 1)) := (pow_add ..).symm
          _ ≤ 10 ^ 14 := Nat.pow_le_pow_right (by decide) (by omega)
          _ < 2 ^ 53 := by norm_num
      exact counts.reads (negative_ofDigits ..) finite pos short (hD ▸ .whole least (by omega))

theorem ofBinary32?_eq_none (infinite : x.isFinite = false) : ofBinary32? x = none := by
  unfold ofBinary32? Binary32.value
  cases x.isNaN <;> simp [infinite]

end Read

end JsonNumber

end MarkerLattice
