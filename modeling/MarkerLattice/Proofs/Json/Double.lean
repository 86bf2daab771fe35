import Mathlib
import MarkerLattice.Json.Number
import MarkerLattice.Proofs.Rounding

/-! Scaling by a power of ten in double precision: the result is off by two roundings,
and exact where the result is short and the power small. -/
namespace MarkerLattice

namespace BinaryGrid

variable {num den : ℕ}

theorem double_error (hd : 0 < den) (large : (2 : ℚ) ^ (-250 : ℤ) ≤ num / den) :
    2 ^ 53 * |(double.nearest num den).toRat - num / den| ≤ num / den := by
  have pos : (0 : ℚ) < num / den := lt_of_lt_of_le (by positivity) large
  have hn : 0 < num := by
    apply Nat.pos_of_ne_zero
    rintro rfl
    simp at pos
  obtain ⟨low, high⟩ := floorLog2_spec hn hd
  have error := double.nearest_error num hd
  have quantum : (double.nearest num den).quantum = floorLog2 num den - 52 := by
    have above : -250 < floorLog2 num den + 1 :=
      (zpow_lt_zpow_iff_right₀ (one_lt_two (α := ℚ))).mp (large.trans_lt high)
    rw [nearest_of_pos double hn]
    simp only [quantumOf, double]
    omega
  rw [quantum] at error
  calc 2 ^ 53 * |(double.nearest num den).toRat - num / den|
      ≤ 2 ^ 53 * ((2 : ℚ) ^ (floorLog2 num den - 52) / 2) := by gcongr
    _ = 2 ^ floorLog2 num den := by
      rw [zpow_sub₀ two_ne_zero]
      norm_num
      ring
    _ ≤ num / den := low

theorem double_exact {m : ℕ} {p : ℤ} (hd : 0 < den) (value : (num : ℚ) / den = m * 2 ^ p)
    (short : m < 2 ^ 53) (low : -1074 ≤ p) : (double.nearest num den).toRat = num / den :=
  (double.nearest_exact hd value short low).2.2

end BinaryGrid

namespace JsonNumber

open BinaryGrid (double_error double_exact)

theorem toRat_double {n : ℕ} (short : n < 2 ^ 53) : (BinaryGrid.double.nearest n 1).toRat = n := by
  have value : (n : ℚ) / (1 : ℕ) = n * 2 ^ (0 : ℤ) := by simp
  have exact' := double_exact one_pos value short (by decide)
  simpa using exact'

theorem doublePower_error (k : ℕ) : 2 ^ 53 * |(doublePower k).toRat - 10 ^ k| ≤ 10 ^ k := by
  have size : (2 : ℚ) ^ (-250 : ℤ) ≤ ((10 ^ k : ℕ) : ℚ) / (1 : ℕ) := by
    have one : (1 : ℚ) ≤ 10 ^ k := one_le_pow₀ (by norm_num)
    have small : (2 : ℚ) ^ (-250 : ℤ) ≤ 1 := zpow_le_one_of_nonpos₀ one_le_two (by decide)
    push_cast
    linarith
  have error := double_error one_pos size
  push_cast at error
  simpa [doublePower] using error

theorem toRat_doublePower {k : ℕ} (small : k ≤ 22) : (doublePower k).toRat = 10 ^ k := by
  have split : ((10 ^ k : ℕ) : ℚ) / (1 : ℕ) = (5 ^ k : ℕ) * 2 ^ (k : ℤ) := by
    push_cast
    rw [div_one, zpow_natCast, ← mul_pow]
    norm_num
  have short : 5 ^ k < 2 ^ 53 := (Nat.pow_le_pow_right (by decide) small).trans_lt (by norm_num)
  have exact' := double_exact one_pos split short (by omega)
  simpa [doublePower] using exact'

theorem toRat_pos_iff (d : Dyadic) : 0 < d.toRat ↔ 0 < d.numerator := by
  rw [← d.numerator_div_denominator]
  have den : (0 : ℚ) < d.denominator := by exact_mod_cast d.denominator_pos
  rw [div_pos_iff_of_pos_right den]
  norm_cast

theorem quotient_den {a b : Dyadic} (pos : 0 < b.toRat) : 0 < a.denominator * b.numerator ∧
    ((a.numerator * b.denominator : ℕ) : ℚ) / (a.denominator * b.numerator : ℕ) =
      a.toRat / b.toRat := by
  have num := (toRat_pos_iff b).mp pos
  refine ⟨Nat.mul_pos a.denominator_pos num, ?_⟩
  have da : (a.denominator : ℚ) ≠ 0 := by exact_mod_cast a.denominator_pos.ne'
  have db : (b.denominator : ℚ) ≠ 0 := by exact_mod_cast b.denominator_pos.ne'
  have nb : (b.numerator : ℚ) ≠ 0 := by exact_mod_cast num.ne'
  rw [← a.numerator_div_denominator, ← b.numerator_div_denominator]
  push_cast
  field_simp

/-- Two roundings in a row are off by a little more than twice one of them. -/
theorem error_of_two {z x r : ℚ} (first : 2 ^ 53 * |x - r| ≤ x ∨ 2 ^ 53 * |x - r| ≤ r)
    (second : 2 ^ 53 * |z - x| ≤ x) : 2 ^ 55 * |z - r| ≤ 9 * r := by
  have sum : |z - r| ≤ |z - x| + |x - r| := abs_sub_le z x r
  have le : x - r ≤ |x - r| := le_abs_self _
  have least : 0 ≤ |z - x| := abs_nonneg _
  have least' : 0 ≤ |x - r| := abs_nonneg _
  rcases first with first | first <;> linarith

theorem le_of_error {x r : ℚ} (first : 2 ^ 53 * |x - r| ≤ x ∨ 2 ^ 53 * |x - r| ≤ r) : r / 2 ≤ x := by
  have le : r - x ≤ |x - r| := abs_sub_comm x r ▸ le_abs_self _
  have least' : 0 ≤ |x - r| := abs_nonneg _
  rcases first with first | first <;> linarith

theorem large_of_error {x r : ℚ} (large : (2 : ℚ) ^ (-249 : ℤ) ≤ r)
    (first : 2 ^ 53 * |x - r| ≤ x ∨ 2 ^ 53 * |x - r| ≤ r) : (2 : ℚ) ^ (-250 : ℤ) ≤ x := by
  calc (2 : ℚ) ^ (-250 : ℤ) = 2 ^ (-249 : ℤ) / 2 := by norm_num
    _ ≤ r / 2 := by gcongr
    _ ≤ x := le_of_error first

theorem quotient_error {a : Dyadic} {k : ℕ} (large : (2 : ℚ) ^ (-249 : ℤ) ≤ a.toRat / 10 ^ k) :
    2 ^ 55 * |(doubleQuotient a (doublePower k)).toRat - a.toRat / 10 ^ k| ≤
      9 * (a.toRat / 10 ^ k) := by
  have ten : (0 : ℚ) < 10 ^ k := by positivity
  have power := doublePower_error k
  have power_pos : 0 < (doublePower k).toRat := by
    have low := neg_abs_le ((doublePower k).toRat - 10 ^ k)
    linarith
  obtain ⟨hd, value⟩ := quotient_den (a := a) power_pos
  have first : 2 ^ 53 * |a.toRat / (doublePower k).toRat - a.toRat / 10 ^ k| ≤
      a.toRat / (doublePower k).toRat := by
    have positive : 0 ≤ a.toRat / (doublePower k).toRat := by
      unfold Dyadic.toRat at power_pos ⊢
      positivity
    have split : (a.toRat / (doublePower k).toRat - a.toRat / 10 ^ k) =
        a.toRat / (doublePower k).toRat * ((10 ^ k - (doublePower k).toRat) / 10 ^ k) := by
      field_simp
    rw [split, abs_mul, abs_of_nonneg positive, abs_div, abs_of_pos ten, abs_sub_comm]
    calc 2 ^ 53 * (a.toRat / (doublePower k).toRat * (|(doublePower k).toRat - 10 ^ k| / 10 ^ k))
        = a.toRat / (doublePower k).toRat * (2 ^ 53 * |(doublePower k).toRat - 10 ^ k| / 10 ^ k) := by
          ring
      _ ≤ a.toRat / (doublePower k).toRat * 1 := by
          gcongr
          rwa [div_le_one ten]
      _ = a.toRat / (doublePower k).toRat := mul_one _
  have second := double_error hd (by rw [value]; exact large_of_error large (.inl first))
  rw [value] at second
  exact error_of_two (.inl first) second

theorem toRat_product (a b : Dyadic) : (⟨a.significand * b.significand, a.quantum + b.quantum⟩ : Dyadic).toRat =
    a.toRat * b.toRat := by
  simp only [Dyadic.toRat, zpow_add₀ (two_ne_zero (α := ℚ))]
  push_cast
  ring

theorem product_error {a : Dyadic} {k : ℕ} (large : (2 : ℚ) ^ (-249 : ℤ) ≤ a.toRat * 10 ^ k) :
    2 ^ 55 * |(doubleProduct a (doublePower k)).toRat - a.toRat * 10 ^ k| ≤
      9 * (a.toRat * 10 ^ k) := by
  have power := doublePower_error k
  have positive : 0 ≤ a.toRat := by
    unfold Dyadic.toRat
    positivity
  have first : 2 ^ 53 * |a.toRat * (doublePower k).toRat - a.toRat * 10 ^ k| ≤ a.toRat * 10 ^ k := by
    rw [← mul_sub, abs_mul, abs_of_nonneg positive]
    calc 2 ^ 53 * (a.toRat * |(doublePower k).toRat - 10 ^ k|)
        = a.toRat * (2 ^ 53 * |(doublePower k).toRat - 10 ^ k|) := by ring
      _ ≤ a.toRat * 10 ^ k := by gcongr
  have value := Dyadic.numerator_div_denominator
    ⟨a.significand * (doublePower k).significand, a.quantum + (doublePower k).quantum⟩
  rw [toRat_product] at value
  have second := double_error (Dyadic.denominator_pos _)
    (by rw [value]; exact large_of_error large (.inr first))
  rw [value] at second
  exact error_of_two (.inr first) second

/-- With an exact power of ten, a quotient in range is exact. -/
theorem quotient_exact {a : Dyadic} {k : ℕ} (small : k ≤ 22) {m : ℕ} {p : ℤ}
    (value : a.toRat / 10 ^ k = m * 2 ^ p) (short : m < 2 ^ 53) (low : -1074 ≤ p) :
    (doubleQuotient a (doublePower k)).toRat = a.toRat / 10 ^ k := by
  have power := toRat_doublePower small
  have power_pos : 0 < (doublePower k).toRat := power ▸ by positivity
  obtain ⟨hd, quotient⟩ := quotient_den (a := a) power_pos
  rw [power] at quotient
  rw [doubleQuotient, double_exact hd (quotient.trans value) short low, quotient]

theorem product_exact {a : Dyadic} {k : ℕ} (small : k ≤ 22) {m : ℕ} {p : ℤ}
    (value : a.toRat * 10 ^ k = m * 2 ^ p) (short : m < 2 ^ 53) (low : -1074 ≤ p) :
    (doubleProduct a (doublePower k)).toRat = a.toRat * 10 ^ k := by
  have product := Dyadic.numerator_div_denominator
    ⟨a.significand * (doublePower k).significand, a.quantum + (doublePower k).quantum⟩
  rw [toRat_product, toRat_doublePower small] at product
  have whole := double_exact (Dyadic.denominator_pos _) (product.trans value) short low
  rwa [product] at whole

def scaledDouble (n : ℕ) (e : ℤ) : Dyadic :=
  if e < 0 then doubleQuotient (BinaryGrid.double.nearest n 1) (doublePower e.natAbs)
  else doubleProduct (BinaryGrid.double.nearest n 1) (doublePower e.natAbs)

section Scaled

variable {n : ℕ} {e : ℤ}

theorem mul_ten_zpow (n : ℕ) (e : ℤ) : (n : ℚ) * 10 ^ e =
    if e < 0 then (n : ℚ) / 10 ^ e.natAbs else n * 10 ^ e.natAbs := by
  split
  next negative =>
    obtain ⟨k, hk⟩ := Int.eq_ofNat_of_zero_le (show 0 ≤ -e by omega)
    obtain rfl : e = -k := by omega
    simp [div_eq_mul_inv]
  next positive =>
    obtain ⟨k, rfl⟩ := Int.eq_ofNat_of_zero_le (not_lt.mp positive)
    simp

theorem scaledDouble_error (short : n < 2 ^ 53) (large : (2 : ℚ) ^ (-249 : ℤ) ≤ n * 10 ^ e) :
    2 ^ 55 * |(scaledDouble n e).toRat - n * 10 ^ e| ≤ 9 * (n * 10 ^ e) := by
  have whole := toRat_double short
  rw [mul_ten_zpow] at large ⊢
  rw [scaledDouble]
  split
  next negative =>
    rw [if_pos negative, ← whole] at large
    rw [← whole]
    exact quotient_error large
  next positive =>
    rw [if_neg positive, ← whole] at large
    rw [← whole]
    exact product_error large

theorem scaledDouble_exact (short : n < 2 ^ 53) (small : e.natAbs ≤ 22) {m : ℕ} {p : ℤ}
    (value : (n : ℚ) * 10 ^ e = m * 2 ^ p) (short' : m < 2 ^ 53) (low : -1074 ≤ p) :
    (scaledDouble n e).toRat = n * 10 ^ e := by
  have whole := toRat_double short
  rw [mul_ten_zpow] at value ⊢
  rw [scaledDouble]
  split
  next negative =>
    rw [if_pos negative, ← whole] at value
    rw [quotient_exact small value short' low, whole]
  next positive =>
    rw [if_neg positive, ← whole] at value
    rw [product_exact small value short' low, whole]

theorem not_le_numerator {d : Dyadic} {k : ℕ} (small : d.toRat < 2 ^ 200) (above : 200 ≤ k) :
    ¬d.denominator * Nat.pow 2 k ≤ d.numerator := by
  intro beyond
  have den : (0 : ℚ) < d.denominator := by exact_mod_cast d.denominator_pos
  have less : d.denominator * 2 ^ 200 ≤ d.numerator :=
    (Nat.mul_le_mul_left _ (Nat.pow_le_pow_right (by decide) above)).trans beyond
  have less' : (d.denominator : ℚ) * 2 ^ 200 ≤ d.numerator := by exact_mod_cast less
  rw [← d.numerator_div_denominator, div_lt_iff₀ den] at small
  linarith

theorem not_isBeyondDouble {d : Dyadic} (small : d.toRat < 2 ^ 200) : isBeyondDouble d = false := by
  rw [isBeyondDouble, decide_eq_false_iff_not]
  generalize hk : 1024 = k
  exact not_le_numerator small (by omega)

theorem scaleDouble_eq (short : n < 2 ^ 53) (near : e.natAbs ≤ 308)
    (large : (2 : ℚ) ^ (-249 : ℤ) ≤ n * 10 ^ e) (small : (n : ℚ) * 10 ^ e < 2 ^ 190) :
    scaleDouble (BinaryGrid.double.nearest n 1) e = some (scaledDouble n e) := by
  have error := scaledDouble_error short large
  have le := le_abs_self ((scaledDouble n e).toRat - n * 10 ^ e)
  have inside : (scaledDouble n e).toRat < 2 ^ 200 := by linarith
  rw [scaleDouble, if_pos near]
  rw [scaledDouble] at inside ⊢
  split
  next => rfl
  next positive =>
    rw [if_neg positive] at inside
    simp only [not_isBeyondDouble inside, Bool.false_eq_true, if_false]

end Scaled

end JsonNumber

end MarkerLattice
