import Mathlib
import MarkerLattice.Lattice.Coord
import MarkerLattice.Proofs.Binary32.Error

/-! From a slot to its location and back. On each axis a place is multiplied by the
cell size and divided by it again, and either step rounds. Half places come back into
their cell; a whole one may fall just below itself, which is the cell before. -/
namespace MarkerLattice

namespace Binary32

theorem representable_fine {n : ℤ} (h : n.natAbs < 2 ^ 24) : Representable (n / 2 ^ 24) :=
  ⟨n, -24, by rw [zpow_neg, div_eq_mul_inv]; norm_cast, h, by decide, by decide⟩

theorem exists_fine {x : Binary32} (h : x.toRat = 0 ∨ 1 / 2 ≤ |x.toRat|) :
    ∃ n : ℤ, x.toRat = n / 2 ^ 24 := by
  rcases h with zero | far
  · exact ⟨0, by simpa using zero⟩
  have short := x.canonical_magnitude.1.lt
  simp only [BinaryGrid.single] at short
  rw [abs_toRat, Dyadic.toRat] at far
  have order : (2 : ℚ) ^ (-1 : ℤ) < 2 ^ (x.magnitude.quantum + 24) := by
    calc (2 : ℚ) ^ (-1 : ℤ) ≤ x.magnitude.significand * 2 ^ x.magnitude.quantum := by
          simpa using far
      _ < 2 ^ 24 * 2 ^ x.magnitude.quantum := by
          gcongr
          exact_mod_cast short
      _ = 2 ^ (x.magnitude.quantum + 24) := by
          rw [zpow_add₀ two_ne_zero, mul_comm]
          norm_cast
  have low := (zpow_lt_zpow_iff_right₀ (one_lt_two (α := ℚ))).mp order
  obtain ⟨k, hk⟩ := Int.eq_ofNat_of_zero_le (show 0 ≤ x.magnitude.quantum + 24 by omega)
  have value : x.magnitude.toRat = (x.magnitude.significand * 2 ^ k : ℕ) / 2 ^ 24 := by
    rw [Dyadic.toRat, show x.magnitude.quantum = k + -24 by omega, zpow_add₀ two_ne_zero,
      zpow_natCast, zpow_neg, div_eq_mul_inv, ← mul_assoc]
    norm_cast
  refine ⟨if x.negative then -(x.magnitude.significand * 2 ^ k : ℕ)
    else (x.magnitude.significand * 2 ^ k : ℕ), ?_⟩
  rw [toRat, value]
  split <;> simp_all [signed, neg_div]

namespace Denotes

variable {x c : Binary32} {a b : ℚ}

theorem abs (hx : x.Denotes a) : x.abs.Denotes |a| := by
  have bound : x.magnitudeBits < 0x80000000 := Nat.mod_lt _ (by decide)
  have bits : x.abs.magnitudeBits = x.magnitudeBits := magnitudeBits_ofParts false bound
  have sign : x.abs.negative = false := negative_ofParts false bound
  have finite := hx.finite
  refine ⟨by rwa [isFinite, bits], ?_⟩
  rw [← hx.toRat, abs_toRat, Binary32.toRat, sign]
  simp [signed, magnitude, bits]

theorem mul (hx : x.Denotes a) (hy : c.Denotes b) (fits : Representable |a * b|) :
    (x * c).Denotes (a * b) := by
  obtain ⟨num, den, hd, product, value⟩ := mul_eq_ofQuotient hx.finite hy.finite
  rw [← hx.toRat, ← hy.toRat] at fits ⊢
  rw [abs_mul, abs_toRat, abs_toRat, ← value] at fits
  have denotes := denotes_ofQuotient (x.negative != c.negative) hd fits
  rwa [← product, value, signed_mul] at denotes

theorem div (hx : x.isFinite = true) (hc : c.isFinite = true) (positive : zero.lt c = true)
    (fits : Representable (|x.toRat| / c.toRat)) : (x / c).Denotes (x.toRat / c.toRat) := by
  obtain ⟨sign, nonzero, -⟩ := positive_of_lt positive
  obtain ⟨num, den, hd, quotient, value⟩ := div_eq_ofQuotient hx hc sign nonzero
  have divisor : c.toRat = c.magnitude.toRat := by rw [Binary32.toRat, sign]; rfl
  rw [abs_toRat, divisor, ← value] at fits
  have denotes := denotes_ofQuotient x.negative hd fits
  rwa [← quotient, value, signed_div, ← divisor] at denotes

end Denotes

/-- A number that comes back for `u`: it is off by two roundings, and not small but
for zero. -/
structure Recovers (x : Binary32) (u : ℚ) : Prop where
  finite : x.isFinite = true
  close : |x.toRat - u| ≤ |u| / 8000000
  coarse : x.toRat = 0 ∨ 1 / 2 ≤ |x.toRat|

namespace Recovers

variable {x : Binary32} {u : ℚ}

theorem floor (h : x.Recovers u) (reach : |u| ≤ 2 ^ 21) :
    x.floor.Denotes ⌊x.toRat⌋ ∧ x.floor.toInt = ⌊x.toRat⌋ := by
  have size : |x.toRat| ≤ 2 ^ 22 := by
    have apart := abs_sub_abs_le_abs_sub x.toRat u
    linarith [h.close]
  have short := natAbs_floor_le (b := 2 ^ 22) (by exact_mod_cast size)
  have floor := Denotes.floor ⟨h.finite, rfl⟩ (show ⌊x.toRat⌋.natAbs < 2 ^ 24 by omega)
  exact ⟨floor, floor.toInt (by omega)⟩

/-- The place within the cell is computed exactly, and so is how far it lies from
the corner or from the middle of an edge. -/
theorem isNear_iff (h : x.Recovers u) (reach : |u| ≤ 2 ^ 21) {target : Binary32} {j : ℤ}
    (part : target.Denotes (j / 2)) (bounds : 0 ≤ j ∧ j ≤ 1) :
    Slot.isNear (x - x.floor) target = true ↔
      |Int.fract x.toRat - j / 2| ≤ Slot.tolerance.toRat := by
  obtain ⟨n, hn⟩ := exists_fine h.coarse
  obtain ⟨m, hm⟩ : ∃ m, m = n - ⌊x.toRat⌋ * 2 ^ 24 := ⟨_, rfl⟩
  have fract : Int.fract x.toRat = m / 2 ^ 24 := by
    have cast : (m : ℚ) = n - ⌊x.toRat⌋ * 2 ^ 24 := by exact_mod_cast hm
    rw [← Int.self_sub_floor]
    linarith
  have low : 0 ≤ m := by
    have nonneg := Int.fract_nonneg x.toRat
    rw [fract, le_div_iff₀ (by norm_num), zero_mul] at nonneg
    exact_mod_cast nonneg
  have high : m < 2 ^ 24 := by
    have below := Int.fract_lt_one x.toRat
    rw [fract, div_lt_iff₀ (by norm_num), one_mul] at below
    exact_mod_cast below
  have whole : x.toRat - ⌊x.toRat⌋ = m / 2 ^ 24 := fract
  have rest := Denotes.sub ⟨h.finite, rfl⟩ (h.floor reach).1
    (whole ▸ representable_fine (by omega))
  have apart : x.toRat - ⌊x.toRat⌋ - j / 2 = (m - j * 2 ^ 23 : ℤ) / 2 ^ 24 := by
    rw [whole]
    push_cast
    ring
  have distance := (rest.sub part (apart ▸ representable_fine (by omega))).abs
  have finite : Slot.tolerance.isFinite = true := by decide
  rw [Slot.isNear, le_iff_toRat distance.finite finite, distance.toRat]
  rfl

end Recovers

end Binary32

namespace Slot

def returned (size : Binary32) (c : ℤ) (offset : Binary32) : Binary32 :=
  (Binary32.ofInt c + offset) * size / size

/-- The place comes back into its cell, and within the tolerance of its part. -/
def Returns (size : Binary32) (c : ℤ) (offset : Binary32) : Prop :=
  ⌊(returned size c offset).toRat⌋ = c ∧
    |(returned size c offset).toRat - (c + offset.toRat)| ≤ tolerance.toRat

structure Admits (size : Binary32) (c : ℤ) (offset : Binary32) : Prop where
  positive : Binary32.zero.lt size = true
  normal : size.IsNormal
  near : c.natAbs ≤ 2 ^ 20
  product : ((Binary32.ofInt c + offset) * size).IsNormal ∨
    ((Binary32.ofInt c + offset) * size).magnitudeBits = 0

section Axis

variable {size offset : Binary32} {c k : ℤ}

theorem denotes_place (h : Admits size c offset) (part : offset.Denotes (k / 2))
    (bounds : 0 ≤ k ∧ k ≤ 1) : (Binary32.ofInt c + offset).Denotes ((2 * c + k : ℤ) / 2) := by
  have near := h.near
  have whole := Binary32.denotes_ofInt (n := c) (by omega)
  have sum : (((2 * c + k : ℤ) : ℚ)) / 2 = c + k / 2 := by push_cast; ring
  have fits := Binary32.representable_half (n := 2 * c + k) (by omega)
  rw [sum] at fits ⊢
  exact whole.add part fits

theorem toRat_pos (h : Admits size c offset) : 0 < size.toRat := by
  obtain ⟨sign, nonzero, -⟩ := Binary32.positive_of_lt h.positive
  rw [Binary32.toRat, sign, Binary32.signed, Dyadic.toRat]
  have : 0 < size.magnitude.significand := Nat.pos_of_ne_zero nonzero
  simp only [Bool.false_eq_true, if_false]
  positivity

theorem half_le_abs {n : ℤ} (h : n ≠ 0) : (1 : ℚ) / 2 ≤ |(n : ℚ) / 2| := by
  have one : (1 : ℚ) ≤ |(n : ℚ)| := by exact_mod_cast Int.one_le_abs h
  rw [abs_div, abs_of_pos (two_pos (α := ℚ))]
  linarith

theorem abs_half_le {n : ℤ} {b : ℕ} (h : n.natAbs ≤ 2 * b) : |(n : ℚ) / 2| ≤ b := by
  have cast := abs_intCast_le h
  push_cast at cast
  rw [abs_div, abs_of_pos (two_pos (α := ℚ))]
  linarith

theorem abs_place_le (h : Admits size c offset) (bounds : 0 ≤ k ∧ k ≤ 1) :
    |((2 * c + k : ℤ) : ℚ) / 2| ≤ 2 ^ 21 := by
  have near := h.near
  exact_mod_cast abs_half_le (n := 2 * c + k) (b := 2 ^ 21) (by omega)

theorem isNormal_product (h : Admits size c offset) (part : offset.Denotes (k / 2))
    (bounds : 0 ≤ k ∧ k ≤ 1) (place : 2 * c + k ≠ 0) :
    ((Binary32.ofInt c + offset) * size).IsNormal := by
  refine h.product.resolve_right fun zero => ?_
  have denotes := denotes_place h part bounds
  obtain ⟨num, den, hd, product, value⟩ :=
    Binary32.mul_eq_ofQuotient denotes.finite h.normal.finite
  have least : Binary32.packMagnitude
      (BinaryGrid.single.nearest 1 170141183460469231731687303715884105728) = 0x400000 := by
    decide +kernel
  have small := (Binary32.packMagnitude_le (BinaryGrid.single.nearest num den)).trans_lt
    (show 0x7f800000 < 0x80000000 by decide)
  rw [product, Binary32.ofQuotient, Binary32.magnitudeBits_ofParts _ small] at zero
  have far : (1 : ℚ) / 2 ≤ (Binary32.ofInt c + offset).magnitude.toRat := by
    rw [← Binary32.abs_toRat, denotes.toRat]
    exact half_le_abs place
  have unit := h.normal.le_toRat
  have half : ((1 : ℕ) : ℚ) / (170141183460469231731687303715884105728 : ℕ) ≤ num / den := by
    rw [value]
    calc ((1 : ℕ) : ℚ) / (170141183460469231731687303715884105728 : ℕ)
        = 1 / 2 * 2 ^ (-126 : ℤ) := by norm_num
      _ ≤ _ := by gcongr
  have above := Binary32.packMagnitude_mono (by decide) hd half
  rw [least] at above
  omega

theorem abs_sub_le_of_errors {u t q : ℚ} (first : |t - u| ≤ |t| / 2 ^ 24)
    (second : |q - t| ≤ |q| / 2 ^ 24) : |q - u| ≤ |u| / 8000000 := by
  have middle := abs_sub_abs_le_abs_sub t u
  have last := abs_sub_abs_le_abs_sub q t
  have both := abs_sub_le q t u
  have nonneg := abs_nonneg u
  linarith

theorem isFinite_product (h : Admits size c offset) :
    ((Binary32.ofInt c + offset) * size).isFinite = true := by
  rcases h.product with normal | zero
  · exact normal.finite
  · simp [Binary32.isFinite, zero]

theorem returned_of_exact (h : Admits size c offset) (part : offset.Denotes (k / 2))
    (bounds : 0 ≤ k ∧ k ≤ 1) (exact : ((Binary32.ofInt c + offset) * size).toRat =
      (Binary32.ofInt c + offset).toRat * size.toRat) :
    (returned size c offset).Denotes ((2 * c + k : ℤ) / 2) := by
  have near := h.near
  have unit := (toRat_pos h).ne'
  have place := (denotes_place h part bounds).toRat
  have quotient : ((Binary32.ofInt c + offset) * size).toRat / size.toRat =
      (2 * c + k : ℤ) / 2 := by
    rw [exact, place, mul_div_cancel_right₀ _ unit]
  have fits : Binary32.Representable
      (|((Binary32.ofInt c + offset) * size).toRat| / size.toRat) := by
    rw [← abs_of_pos (toRat_pos h), ← abs_div, quotient, abs_div, abs_of_pos (two_pos (α := ℚ)),
      ← Int.cast_abs]
    exact Binary32.representable_half (by rw [Int.natAbs_abs]; omega)
  exact quotient ▸ .div (isFinite_product h) h.normal.finite h.positive fits

/-- A location is not below half the cell size, even where its place is rounded. -/
theorem half_size_le (h : Admits size c offset) {p : Binary32} {u : ℚ} (far : 1 / 2 ≤ |u|)
    (rounds : p.Rounds (u * size.toRat)) : size.toRat / 2 ≤ |p.toRat| := by
  have value : size.toRat / 2 = size.magnitude.significand * 2 ^ (size.magnitude.quantum - 1) := by
    rw [← abs_of_pos (toRat_pos h), Binary32.abs_toRat, Dyadic.toRat, zpow_sub_one₀ two_ne_zero]
    ring
  have reached : size.toRat / 2 ≤ |u * size.toRat| := by
    rw [abs_mul, abs_of_pos (toRat_pos h)]
    nlinarith [toRat_pos h]
  rw [value] at reached ⊢
  exact rounds.le_abs h.normal.significand.2 reached

theorem ratio_error {p : Binary32} {u : ℚ} (unit : 0 < size.toRat)
    (rounds : p.Rounds (u * size.toRat)) :
    |p.toRat / size.toRat - u| ≤ |p.toRat / size.toRat| / 2 ^ 24 := by
  have error := rounds.error
  have split : p.toRat / size.toRat - u = (p.toRat - u * size.toRat) / size.toRat := by
    rw [sub_div, mul_div_cancel_right₀ _ unit.ne']
  rw [split, abs_div, abs_div, abs_of_pos unit, div_right_comm]
  gcongr

theorem recovers_returned (h : Admits size c offset) (part : offset.Denotes (k / 2))
    (bounds : 0 ≤ k ∧ k ≤ 1) : (returned size c offset).Recovers ((2 * c + k : ℤ) / 2) := by
  have denotes := denotes_place h part bounds
  by_cases place : 2 * c + k = 0
  · have fits : Binary32.Representable |((2 * c + k : ℤ) : ℚ) / 2 * size.toRat| := by
      simpa [place] using Binary32.representable_fine (n := 0) (by decide)
    have product := denotes.mul ⟨h.normal.finite, rfl⟩ fits
    have back := returned_of_exact h part bounds (by rw [product.toRat, denotes.toRat])
    rw [place] at back ⊢
    have zero := back.toRat
    simp only [Int.cast_zero, zero_div] at zero ⊢
    exact ⟨back.finite, by simp [zero], .inl zero⟩
  have unit := toRat_pos h
  have far := half_le_abs place
  have normal := isNormal_product h part bounds place
  have location := Binary32.rounds_mul denotes.finite h.normal.finite normal
  rw [denotes.toRat] at location
  have reach := abs_place_le h bounds
  have low := half_size_le h far location
  have first := ratio_error unit location
  unfold returned
  generalize (Binary32.ofInt c + offset) * size = p at *
  generalize ((2 * c + k : ℤ) : ℚ) / 2 = u at *
  have ratio : |p.toRat / size.toRat| = |p.toRat| / size.toRat := by
    rw [abs_div, abs_of_pos unit]
  have above : 1 / 2 ≤ |p.toRat| / size.toRat := by
    rw [le_div_iff₀ unit]
    linarith
  have below : |p.toRat| / size.toRat ≤ 2 ^ 22 := by
    have apart := abs_sub_abs_le_abs_sub (p.toRat / size.toRat) u
    linarith
  have quotient := Binary32.rounds_div normal.finite h.normal.finite h.positive
    (by linarith) below
  have half : ((1 : ℕ) : ℚ) * 2 ^ (-1 : ℤ) = 1 / 2 := by norm_num
  have coarse := quotient.le_abs (m := 1) (p := -1) (by decide) (by rwa [half, ratio])
  rw [half] at coarse
  exact ⟨quotient.normal.finite, abs_sub_le_of_errors first quotient.error, .inr coarse⟩

theorem toRat_tolerance : tolerance.toRat = 10737418 / 2 ^ 30 := by
  have value : tolerance.value = .finite false ⟨10737418, -30⟩ := by decide +kernel
  rw [(Binary32.denotes_of_value value).toRat]
  norm_num [Dyadic.toRat, Binary32.signed]

theorem denotes_zero : Binary32.zero.Denotes ((0 : ℤ) / 2) := by
  simpa using Binary32.denotes_zero

theorem denotes_half : Binary32.half.Denotes ((1 : ℤ) / 2) := by
  simpa using Binary32.denotes_half

theorem whole_axis (h : Admits size c .zero) : (returned size c .zero).floor.toInt = c ∧
    isNear (returned size c .zero - (returned size c .zero).floor) .zero = true ↔
      Returns size c .zero := by
  have reach := abs_place_le h (k := 0) (by decide)
  have recovers := recovers_returned h denotes_zero (by decide)
  rw [(recovers.floor reach).2, Returns, recovers.isNear_iff reach denotes_zero (by decide),
    Binary32.denotes_zero.toRat, ← Int.self_sub_floor]
  exact and_congr_right fun same => by simp [same]

/-- A half place stays in its cell, since two roundings move it by less than another half. -/
theorem half_axis (h : Admits size c .half) :
    (returned size c .half).floor.toInt = c ∧
    isNear (returned size c .half - (returned size c .half).floor) .zero = false ∧
    (isNear (returned size c .half - (returned size c .half).floor) .half = true ↔
      Returns size c .half) := by
  have reach := abs_place_le h (k := 1) (by decide)
  have recovers := recovers_returned h denotes_half (by decide)
  have close := recovers.close
  rw [(recovers.floor reach).2, Returns, recovers.isNear_iff reach denotes_half (by decide),
    ← Bool.not_eq_true, recovers.isNear_iff reach denotes_zero (by decide), toRat_tolerance,
    Binary32.denotes_half.toRat, ← Int.self_sub_floor]
  generalize (returned size c .half).toRat = q at *
  have middle : ((2 * c + 1 : ℤ) : ℚ) / 2 = c + 1 / 2 := by push_cast; ring
  rw [middle] at close reach
  obtain ⟨below, above⟩ := abs_le.mp (close.trans (div_le_div_of_nonneg_right reach (by norm_num)))
  have same : ⌊q⌋ = c := Int.floor_eq_iff.mpr ⟨by linarith, by linarith⟩
  have split : q - ⌊q⌋ - (1 : ℤ) / 2 = q - (c + 1 / 2) := by
    rw [same]
    push_cast
    ring
  refine ⟨same, fun corner => ?_, by rw [split]; exact (and_iff_right same).symm⟩
  have low := (abs_le.mp corner).2
  rw [same] at low
  push_cast at low
  linarith

/-- Near the origin two roundings stay within the tolerance, and all that matters is
the side on which they fall. -/
theorem returns_iff_le (h : Admits size c offset) (part : offset.Denotes (k / 2))
    (bounds : 0 ≤ k ∧ k ≤ 1) (origin : c.natAbs < 2 ^ 16) :
    Returns size c offset ↔ c ≤ (returned size c offset).toRat := by
  have close := (recovers_returned h part bounds).close
  have place : ((2 * c + k : ℤ) : ℚ) / 2 = c + k / 2 := by push_cast; ring
  have reach : |((2 * c + k : ℤ) : ℚ) / 2| ≤ (2 ^ 16 : ℕ) := abs_half_le (by omega)
  rw [place] at close reach
  rw [Returns, part.toRat, toRat_tolerance]
  generalize (returned size c offset).toRat = q at *
  have within : |q - (c + k / 2)| ≤ 10737418 / 2 ^ 30 := by linarith
  have half : (k : ℚ) ≤ 1 := by exact_mod_cast bounds.2
  have below := (abs_le.mp within).2
  rw [and_iff_left within, Int.floor_eq_iff]
  exact and_iff_left (by linarith)

theorem returns_of_exact (h : Admits size c offset) (part : offset.Denotes (k / 2))
    (bounds : 0 ≤ k ∧ k ≤ 1) (exact : ((Binary32.ofInt c + offset) * size).toRat =
      (Binary32.ofInt c + offset).toRat * size.toRat) : Returns size c offset := by
  have place : ((2 * c + k : ℤ) : ℚ) / 2 = c + k / 2 := by push_cast; ring
  have low : (0 : ℚ) ≤ k := by exact_mod_cast bounds.1
  have high : (k : ℚ) ≤ 1 := by exact_mod_cast bounds.2
  rw [Returns, (returned_of_exact h part bounds exact).toRat, part.toRat, place, sub_self,
    abs_zero, toRat_tolerance]
  exact ⟨Int.floor_eq_iff.mpr ⟨by linarith, by linarith⟩, by norm_num⟩

end Axis

section Parts

variable {x y : Binary32}

theorem partAt_eq_corner :
    partAt x y = .corner ↔ isNear x .zero = true ∧ isNear y .zero = true := by
  unfold partAt
  split_ifs <;> simp_all

theorem partAt_eq_edgeX (far : isNear x .zero = false) :
    partAt x y = .edgeX ↔ isNear x .half = true ∧ isNear y .zero = true := by
  unfold partAt
  split_ifs <;> simp_all

theorem partAt_eq_edgeY (far : isNear y .zero = false) :
    partAt x y = .edgeY ↔ isNear x .zero = true ∧ isNear y .half = true := by
  unfold partAt
  split_ifs <;> simp_all

end Parts

section Planar

variable {cell : Vec3 Binary32} {s : Slot}

theorem ofLocation_location_eq (level : ℤ) (hx : Binary32.zero.lt cell.x = true)
    (hy : Binary32.zero.lt cell.y = true) {x y : Binary32}
    (atX : x = returned cell.x s.coord.x s.part.offset.x)
    (atY : y = returned cell.y s.coord.y s.part.offset.y) :
    ofLocation cell.flat (location cell s level) =
      ⟨⟨x.floor.toInt, y.floor.toInt⟩, partAt (x - x.floor) (y - y.floor)⟩ := by
  have positive {c : Binary32} (h : Binary32.zero.lt c = true) : c.le .zero = false := by
    simp only [Binary32.lt, Binary32.le, Bool.and_eq_true, decide_eq_true_eq] at h ⊢
    simpa using fun _ _ => h.2
  rw [ofLocation, Vec3.flat, positive hx, positive hy, atX, atY]
  rfl

theorem ofLocation_location_iff (level : ℤ) (hx : Admits cell.x s.coord.x s.part.offset.x)
    (hy : Admits cell.y s.coord.y s.part.offset.y) :
    ofLocation cell.flat (location cell s level) = s ↔ s.part = .ground ∨
      Returns cell.x s.coord.x s.part.offset.x ∧ Returns cell.y s.coord.y s.part.offset.y := by
  rw [ofLocation_location_eq level hx.positive hy.positive rfl rfl]
  obtain ⟨⟨cx, cy⟩, part⟩ := s
  rw [Slot.mk.injEq, Coord.mk.injEq]
  cases part with
  | ground =>
    obtain ⟨cellX, farX, -⟩ := half_axis hx
    obtain ⟨cellY, farY, -⟩ := half_axis hy
    exact iff_of_true ⟨⟨cellX, cellY⟩, by simp [partAt, SubCell.offset, farX, farY]⟩ (.inl rfl)
  | edgeX =>
    obtain ⟨cellX, farX, nearX⟩ := half_axis hx
    have nearY := whole_axis hy
    simp only [SubCell.offset, partAt_eq_edgeX farX, ← nearX, ← nearY, cellX, reduceCtorEq,
      false_or, true_and]
    exact and_left_comm
  | edgeY =>
    have nearX := whole_axis hx
    obtain ⟨cellY, farY, nearY⟩ := half_axis hy
    simp only [SubCell.offset, partAt_eq_edgeY farY, ← nearX, ← nearY, cellY, reduceCtorEq,
      false_or, and_true]
    exact and_assoc.symm
  | corner =>
    simp only [SubCell.offset, partAt_eq_corner, ← whole_axis hx, ← whole_axis hy,
      reduceCtorEq, false_or]
    exact and_and_and_comm

theorem exists_denotes_offset (part : SubCell) :
    (∃ k : ℤ, part.offset.x.Denotes (k / 2) ∧ 0 ≤ k ∧ k ≤ 1) ∧
      ∃ k : ℤ, part.offset.y.Denotes (k / 2) ∧ 0 ≤ k ∧ k ≤ 1 := by
  cases part with
  | ground => exact ⟨⟨1, denotes_half, by decide⟩, ⟨1, denotes_half, by decide⟩⟩
  | edgeX => exact ⟨⟨1, denotes_half, by decide⟩, ⟨0, denotes_zero, by decide⟩⟩
  | edgeY => exact ⟨⟨0, denotes_zero, by decide⟩, ⟨1, denotes_half, by decide⟩⟩
  | corner => exact ⟨⟨0, denotes_zero, by decide⟩, ⟨0, denotes_zero, by decide⟩⟩

theorem le_returned_half {size : Binary32} {c : ℤ} (h : Admits size c .half) :
    c ≤ (returned size c .half).toRat := by
  have recovers := recovers_returned h denotes_half (by decide)
  have reach := abs_place_le h (k := 1) (by decide)
  have same := (half_axis h).1
  have below := Int.floor_le (returned size c .half).toRat
  rwa [← (recovers.floor reach).2, same] at below

/-- The location of a slot is read as that slot where both axes come back; this always
holds for the ground. Near the origin an axis fails only by falling below its place,
and it never fails where the location is exact. -/
theorem ofLocation_location (level : ℤ) (hx : Admits cell.x s.coord.x s.part.offset.x)
    (hy : Admits cell.y s.coord.y s.part.offset.y) :
    (ofLocation cell.flat (location cell s level) = s ↔ s.part = .ground ∨
      Returns cell.x s.coord.x s.part.offset.x ∧ Returns cell.y s.coord.y s.part.offset.y) ∧
    (s.coord.x.natAbs < 2 ^ 16 → s.coord.y.natAbs < 2 ^ 16 →
      (ofLocation cell.flat (location cell s level) = s ↔
        s.coord.x ≤ (returned cell.x s.coord.x s.part.offset.x).toRat ∧
          s.coord.y ≤ (returned cell.y s.coord.y s.part.offset.y).toRat)) ∧
    ((location cell s level).x.toRat =
        (Binary32.ofInt s.coord.x + s.part.offset.x).toRat * cell.x.toRat →
      (location cell s level).y.toRat =
        (Binary32.ofInt s.coord.y + s.part.offset.y).toRat * cell.y.toRat →
      ofLocation cell.flat (location cell s level) = s) := by
  obtain ⟨⟨k, partX, boundsX⟩, ⟨l, partY, boundsY⟩⟩ := exists_denotes_offset s.part
  have reads := ofLocation_location_iff level hx hy
  refine ⟨reads, fun nearX nearY => ?_, fun exactX exactY => ?_⟩
  · rw [reads, returns_iff_le hx partX boundsX nearX, returns_iff_le hy partY boundsY nearY]
    refine or_iff_right_of_imp fun ground => ?_
    rw [ground] at hx hy ⊢
    exact ⟨le_returned_half hx, le_returned_half hy⟩
  · exact reads.mpr (.inr ⟨returns_of_exact hx partX boundsX exactX,
      returns_of_exact hy partY boundsY exactY⟩)

/-- With cells of nine tenths the third corner falls below itself. -/
theorem ofLocation_location_thirdCorner :
    ofLocation ⟨⟨0x3f666666⟩, ⟨0x3f666666⟩⟩
        (location ⟨⟨0x3f666666⟩, ⟨0x3f666666⟩, .one⟩ ⟨⟨3, 0⟩, .corner⟩ 0) =
      ⟨⟨2, 0⟩, .ground⟩ ∧
    ¬(((3 : ℤ) : ℚ) ≤ (returned ⟨0x3f666666⟩ 3 .zero).toRat ∧
      ((0 : ℤ) : ℚ) ≤ (returned ⟨0x3f666666⟩ 0 .zero).toRat) := by
  have unit : Binary32.IsNormal ⟨0x3f666666⟩ := ⟨by decide, by decide⟩
  have third : Admits ⟨0x3f666666⟩ 3 .zero :=
    ⟨by decide, unit, by decide, .inl ⟨by decide +kernel, by decide +kernel⟩⟩
  have origin : Admits ⟨0x3f666666⟩ 0 .zero :=
    ⟨by decide, unit, by decide, .inr (by decide +kernel)⟩
  have read : ofLocation ⟨⟨0x3f666666⟩, ⟨0x3f666666⟩⟩
      (location ⟨⟨0x3f666666⟩, ⟨0x3f666666⟩, .one⟩ ⟨⟨3, 0⟩, .corner⟩ 0) =
        ⟨⟨2, 0⟩, .ground⟩ := by
    decide +kernel
  refine ⟨read, fun above => ?_⟩
  have back := ((@ofLocation_location ⟨⟨0x3f666666⟩, ⟨0x3f666666⟩, .one⟩ ⟨⟨3, 0⟩, .corner⟩ 0
    third origin).2.1 (by decide) (by decide)).mpr above
  exact absurd (read.symm.trans back) (by decide)

end Planar

end Slot

end MarkerLattice
