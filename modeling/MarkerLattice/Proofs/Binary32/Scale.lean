import Mathlib
import MarkerLattice.Proofs.Rounding

/-! Decimal and binary points stay apart. The best approximations of a power of ten by
fractions with short denominators bound the distance of its multiples from short binary
numbers; the tables are computed once and for all. -/
namespace MarkerLattice

/-- Two fractions with nothing of a smaller denominator between them. -/
structure Neighbours where
  low : ℕ
  lowDen : ℕ
  high : ℕ
  highDen : ℕ
deriving DecidableEq

namespace Neighbours

def narrow (num den : ℕ) (n : Neighbours) : Neighbours :=
  if (n.low + n.high) * den ≤ num * (n.lowDen + n.highDen) then
    { n with low := n.low + n.high, lowDen := n.lowDen + n.highDen }
  else { n with high := n.low + n.high, highDen := n.lowDen + n.highDen }

def around (num den bound : ℕ) : ℕ → Neighbours → Neighbours
  | 0, n => n
  | fuel + 1, n =>
    if bound ≤ n.lowDen + n.highDen then n else around num den bound fuel (n.narrow num den)

/-- What lies between neighbours has the denominator of their mediant at least. -/
theorem le_of_between {a b c d x y : ℕ} (next : c * b = a * d + 1) (above : a * y < x * b)
    (below : x * d < c * y) : b + d ≤ y := by
  calc b + d ≤ b * (c * y - x * d) + d * (x * b - a * y) := by
        have first : 1 ≤ c * y - x * d := by omega
        have second : 1 ≤ x * b - a * y := by omega
        nlinarith
    _ = (c * b - a * d) * y := by
        zify [above.le, below.le, show a * d ≤ c * b by omega]
        ring
    _ = y := by rw [next, Nat.add_sub_cancel_left, one_mul]

end Neighbours

namespace PowerOfTen

def log2 (e : ℤ) : ℤ := floorLog2 (10 ^ e.toNat) (10 ^ (-e).toNat)

def num (e : ℤ) : ℕ := 5 ^ e.toNat * 2 ^ (e - (log2 e - 1)).toNat

def den (e : ℤ) : ℕ := 5 ^ (-e).toNat * 2 ^ (log2 e - 1 - e).toNat

theorem den_pos (e : ℤ) : 0 < den e := by
  unfold den
  positivity

theorem num_div_den (e : ℤ) : (num e : ℚ) / den e * 2 ^ (log2 e - 1) = 10 ^ e := by
  have ten : (10 : ℚ) ^ e = 5 ^ e * 2 ^ (e - (log2 e - 1)) * 2 ^ (log2 e - 1) := by
    rw [mul_assoc, ← zpow_add₀ two_ne_zero, sub_add_cancel, ← mul_zpow]
    norm_num
  have flip : -(e - (log2 e - 1)) = log2 e - 1 - e := by omega
  rw [ten, zpow_eq_div 5, zpow_eq_div 2 (e - _), num, den, flip]
  push_cast
  field_simp

theorem log2_spec (e : ℤ) : (2 : ℚ) ^ log2 e ≤ 10 ^ e ∧ (10 : ℚ) ^ e < 2 ^ (log2 e + 1) := by
  have spec := @floorLog2_spec (10 ^ e.toNat) (10 ^ (-e).toNat) (by positivity)
    (by positivity)
  rw [zpow_eq_div 10]
  exact_mod_cast spec

/-- Points on the binary side are rare next to multiples of the power: one that is short
and no multiple is off by `5 / 2 ^ 54` of it. -/
def Apart (e : ℤ) (c m : ℕ) : Prop :=
  5 * (m * den e : ℤ) ≤ 2 ^ 54 * |(c * num e : ℤ) - m * den e|

variable {e : ℤ} {c m : ℕ}

theorem apart_of_whole (small : 5 * 2 ^ 25 * den e ≤ 2 ^ 54) (short : m < 2 ^ 25)
    (off : c * num e ≠ m * den e) : Apart e c m := by
  have step : (1 : ℤ) ≤ |(c * num e : ℤ) - m * den e| := by
    apply Int.one_le_abs
    rw [sub_ne_zero]
    exact_mod_cast off
  have fits : m * den e ≤ 2 ^ 25 * den e := Nat.mul_le_mul_right _ short.le
  unfold Apart
  zify at small fits
  linarith

theorem apart_of_below {p q : ℕ} (pos : 0 < q)
    (margin : 5 * (q * den e) + 2 ^ 54 * (p * num e) ≤ 2 ^ 54 * (q * den e))
    (below : c * q ≤ p * m) : Apart e c m := by
  have side : (c * q : ℤ) * num e ≤ p * m * num e :=
    mul_le_mul_of_nonneg_right (by exact_mod_cast below) (by positivity)
  have scaled : (m : ℤ) * (5 * (q * den e) + 2 ^ 54 * (p * num e)) ≤ m * (2 ^ 54 * (q * den e)) := by
    gcongr
    exact_mod_cast margin
  refine le_of_mul_le_mul_left (a := (q : ℤ)) ?_ (by exact_mod_cast pos)
  rw [abs_sub_comm]
  calc (q : ℤ) * (5 * (m * den e)) ≤ q * (2 ^ 54 * (m * den e - c * num e)) := by linarith
    _ ≤ q * (2 ^ 54 * |(m * den e - c * num e : ℤ)|) := by
      gcongr
      exact le_abs_self _

theorem apart_of_above {p q : ℕ} (pos : 0 < q)
    (margin : 5 * (q * den e) + 2 ^ 54 * (q * den e) ≤ 2 ^ 54 * (p * num e))
    (above : p * m ≤ c * q) : Apart e c m := by
  have side : (p * m : ℤ) * num e ≤ c * q * num e :=
    mul_le_mul_of_nonneg_right (by exact_mod_cast above) (by positivity)
  have scaled : (m : ℤ) * (5 * (q * den e) + 2 ^ 54 * (q * den e)) ≤ m * (2 ^ 54 * (p * num e)) := by
    gcongr
    exact_mod_cast margin
  refine le_of_mul_le_mul_left (a := (q : ℤ)) ?_ (by exact_mod_cast pos)
  calc (q : ℤ) * (5 * (m * den e)) ≤ q * (2 ^ 54 * (c * num e - m * den e)) := by linarith
    _ ≤ q * (2 ^ 54 * |(c * num e - m * den e : ℤ)|) := by
      gcongr
      exact le_abs_self _

def isApart (e : ℤ) : Bool :=
  5 * 2 ^ 25 * den e ≤ 2 ^ 54 ||
    let n := Neighbours.around (den e) (num e) (2 ^ 25) 1500 ⟨0, 1, 1, 1⟩
    0 < n.lowDen && 0 < n.highDen && n.high * n.lowDen = n.low * n.highDen + 1 &&
      2 ^ 25 ≤ n.lowDen + n.highDen &&
      5 * (n.lowDen * den e) + 2 ^ 54 * (n.low * num e) ≤ 2 ^ 54 * (n.lowDen * den e) &&
      5 * (n.highDen * den e) + 2 ^ 54 * (n.highDen * den e) ≤ 2 ^ 54 * (n.high * num e)

theorem apart_of_isApart (h : isApart e = true) (short : m < 2 ^ 25)
    (off : c * num e ≠ m * den e) : Apart e c m := by
  simp only [isApart, Bool.or_eq_true, Bool.and_eq_true, decide_eq_true_eq] at h
  rcases h with small | h
  · exact apart_of_whole small short off
  · generalize Neighbours.around _ _ _ _ _ = n at h
    obtain ⟨⟨⟨⟨⟨pos, pos'⟩, next⟩, wide⟩, low⟩, high⟩ := h
    rcases le_or_gt (c * n.lowDen) (n.low * m) with below | above
    · exact apart_of_below pos low below
    · rcases le_or_gt (n.high * m) (c * n.highDen) with above' | below'
      · exact apart_of_above pos' high above'
      · have := Neighbours.le_of_between next above below'
        omega

theorem isApart_table : ∀ i : Fin 84, i ≠ 13 → isApart (i.val - 45) = true := by
  decide +kernel

/-- For one power two points are nearer, those of `7038531e-32` and its neighbours. -/
theorem apart_or_nearest (short : m < 2 ^ 25) (pos : 0 < m) :
    Apart (-32) c m ∨ c = 7038531 ∧ m = 22841339 := by
  rcases le_or_gt (c * 31187080) (9610261 * m) with below | above
  · exact .inl (apart_of_below (by decide) (by decide +kernel) below)
  rcases le_or_gt (4466801 * m) (c * 14495598) with above' | below
  · exact .inl (apart_of_above (by decide) (by decide +kernel) above')
  right
  rcases lt_trichotomy (c * 22841339) (7038531 * m) with less | same | more
  · have wide := Neighbours.le_of_between (by norm_num) above less
    omega
  · have coprime : Nat.Coprime 22841339 7038531 := by norm_num
    obtain ⟨k, rfl⟩ : 22841339 ∣ m := coprime.dvd_of_dvd_mul_left ⟨c, by rw [← same, mul_comm]⟩
    obtain rfl : k = 1 := by omega
    exact ⟨Nat.eq_of_mul_eq_mul_right (by decide) same, rfl⟩
  · have wide := Neighbours.le_of_between (by norm_num) more below
    omega

theorem apart_of_ne {t : ℕ} (low : -45 ≤ e) (high : e ≤ 38) (short : m < 2 ^ 25) (pos : 0 < m)
    (rare : e = -32 → t = 0 → m ≠ 22841339) (off : c * 2 ^ t * num e ≠ m * den e) :
    Apart e (c * 2 ^ t) m := by
  by_cases special : e = -32
  · subst special
    rcases apart_or_nearest (c := c * 2 ^ t) short pos with apart | ⟨multiple, point⟩
    · exact apart
    · cases t with
      | zero => exact absurd point (rare rfl rfl)
      | succ t =>
        have even : 2 ∣ 7038531 := ⟨c * 2 ^ t, by rw [← multiple]; ring⟩
        omega
  · obtain ⟨i, hi⟩ := Int.eq_ofNat_of_zero_le (show 0 ≤ e + 45 by omega)
    have row := isApart_table ⟨i, by omega⟩ (by simp [Fin.ext_iff]; omega)
    rw [show ((i : ℕ) : ℤ) - 45 = e by omega] at row
    exact apart_of_isApart row short off

/-- A multiple of a power of ten and a short point on a scale that is finer than half the
power are the same or apart. -/
theorem gap {p : ℤ} (low : -45 ≤ e) (high : e ≤ 38) (short : m < 2 ^ 25) (pos : 0 < m)
    (fine : (2 : ℚ) ^ (p + 1) ≤ 10 ^ e) (rare : ¬(m = 22841339 ∧ p = -108))
    (off : (c : ℚ) * 10 ^ e ≠ m * 2 ^ p) :
    5 * (m * 2 ^ p) ≤ 2 ^ 54 * |(c : ℚ) * 10 ^ e - m * 2 ^ p| := by
  obtain ⟨bottom, top⟩ := log2_spec e
  have order : p + 1 < log2 e + 1 :=
    (zpow_lt_zpow_iff_right₀ (one_lt_two (α := ℚ))).mp (fine.trans_lt top)
  obtain ⟨t, ht⟩ := Int.eq_ofNat_of_zero_le (show 0 ≤ log2 e - 1 - p by omega)
  -- Doubling the multiple brings both to the scale of the power.
  have shift : (2 : ℚ) ^ p * 2 ^ t = 2 ^ (log2 e - 1) := by
    rw [← zpow_natCast, ← zpow_add₀ two_ne_zero, ← ht]
    congr 1
    omega
  have den' : (0 : ℚ) < den e := by exact_mod_cast den_pos e
  have unit : (0 : ℚ) < 2 ^ p / den e := by positivity
  have multiple : (c : ℚ) * 10 ^ e = ((c * 2 ^ t : ℕ) * num e : ℤ) * (2 ^ p / den e) := by
    rw [← num_div_den, ← shift]
    push_cast
    field_simp
  have point : (m : ℚ) * 2 ^ p = (m * den e : ℤ) * (2 ^ p / den e) := by
    push_cast
    field_simp
  have off' : c * 2 ^ t * num e ≠ m * den e := by
    intro same
    apply off
    rw [multiple, point]
    congr 1
    exact_mod_cast same
  have apart : Apart e (c * 2 ^ t) m := by
    refine apart_of_ne low high short pos (fun special flat same => rare ⟨same, ?_⟩) off'
    have log : log2 (-32) = -107 := by decide +kernel
    rw [special, log] at ht
    omega
  rw [multiple, point, ← sub_mul, abs_mul, abs_of_pos unit]
  have apart' : (5 : ℚ) * (m * den e : ℤ) ≤
      2 ^ 54 * |(((c * 2 ^ t : ℕ) * num e : ℤ) : ℚ) - (m * den e : ℤ)| := by
    have cast := Int.cast_le (R := ℚ).mpr apart
    push_cast at cast ⊢
    exact cast
  calc 5 * (((m * den e : ℤ) : ℚ) * (2 ^ p / den e))
      = 5 * ((m * den e : ℤ) : ℚ) * (2 ^ p / den e) := by ring
    _ ≤ 2 ^ 54 * |(((c * 2 ^ t : ℕ) * num e : ℤ) : ℚ) - (m * den e : ℤ)| * (2 ^ p / den e) := by
      gcongr
    _ = _ := by ring

end PowerOfTen

end MarkerLattice
