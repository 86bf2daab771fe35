import Mathlib
import MarkerLattice.Binary32.Decimal
import MarkerLattice.Proofs.Binary32.Halfway

/-! What the search for a shortest decimal ends with: a decimal that rounds to the given
magnitude, one of the two next to it on its own decimal grid, with nine digits. -/
namespace MarkerLattice

theorem lt_ten_zpow_iff (num : ℕ) {den : ℕ} (hd : 0 < den) (e : ℤ) :
    num * Nat.pow 10 (-e).toNat < den * Nat.pow 10 e.toNat ↔ (num : ℚ) / den < 10 ^ e := by
  have hd' : (0 : ℚ) < den := by exact_mod_cast hd
  rw [zpow_eq_div 10, div_lt_div_iff₀ hd' (by positivity), mul_comm ((10 : ℚ) ^ _)]
  simp only [Nat.pow_eq]
  norm_cast

theorem guess_bounds {n : ℤ} (low : -149 ≤ n) (high : n ≤ 127) :
    (10 : ℚ) ^ ((n * 1233).fdiv 4096 - 1) ≤ 2 ^ n ∧
      (2 : ℚ) ^ (n + 1) ≤ 10 ^ ((n * 1233).fdiv 4096 + 2) := by
  have table : ∀ i : Fin 277, let n : ℤ := i.val - 149
      let g := (n * 1233).fdiv 4096
      10 ^ (g - 1).toNat * 2 ^ (-n).toNat ≤ 2 ^ n.toNat * 10 ^ (-(g - 1)).toNat ∧
        2 ^ (n + 1).toNat * 10 ^ (-(g + 2)).toNat ≤ 10 ^ (g + 2).toNat * 2 ^ (-(n + 1)).toNat := by
    decide +kernel
  obtain ⟨i, hi⟩ := Int.eq_ofNat_of_zero_le (show 0 ≤ n + 149 by omega)
  obtain rfl : n = i - 149 := by omega
  obtain ⟨below, above⟩ := table ⟨i, by omega⟩
  dsimp only at below above
  constructor
  · rw [zpow_eq_div 10, zpow_eq_div 2, div_le_div_iff₀ (by positivity) (by positivity)]
    exact_mod_cast below
  · rw [zpow_eq_div 10, zpow_eq_div 2, div_le_div_iff₀ (by positivity) (by positivity)]
    exact_mod_cast above

theorem floorLog10_spec {num den : ℕ} (hn : 0 < num) (hd : 0 < den)
    (low : (2 : ℚ) ^ (-149 : ℤ) ≤ num / den) (high : (num : ℚ) / den < 2 ^ (128 : ℤ)) :
    (10 : ℚ) ^ floorLog10 num den ≤ num / den ∧
      (num : ℚ) / den < 10 ^ (floorLog10 num den + 1) := by
  obtain ⟨bottom, top⟩ := floorLog2_spec hn hd
  have first : -149 < floorLog2 num den + 1 :=
    (zpow_lt_zpow_iff_right₀ (one_lt_two (α := ℚ))).mp (low.trans_lt top)
  have last : floorLog2 num den < 128 :=
    (zpow_lt_zpow_iff_right₀ (one_lt_two (α := ℚ))).mp (bottom.trans_lt high)
  obtain ⟨below, above⟩ := guess_bounds (n := floorLog2 num den) (by omega) (by omega)
  rw [floorLog10]
  generalize (floorLog2 num den * 1233).fdiv 4096 = g at *
  have test := lt_ten_zpow_iff num hd
  split_ifs with h h'
  · exact ⟨below.trans bottom, by simpa using (test g).mp h⟩
  · have reached := mt (test (g + 1)).mpr (not_lt.mpr h')
    exact ⟨not_lt.mp reached, top.trans_le (by simpa [add_assoc] using above)⟩
  · exact ⟨not_lt.mp (mt (test g).mpr h), (test (g + 1)).mp (not_le.mp h')⟩

namespace Decimal

variable {d : Decimal} {num den : ℕ}

def toRat (d : Decimal) : ℚ := d.coefficient * 10 ^ d.exponent

theorem crossed_div (d : Decimal) (num : ℕ) (hd : 0 < den) :
    let scale : ℚ := den * 10 ^ (-d.exponent).toNat
    0 < scale ∧ ((d.crossed num den).1 : ℚ) = num / den * scale ∧
      ((d.crossed num den).2 : ℚ) = d.toRat * scale := by
  have hd' : (0 : ℚ) < den := by exact_mod_cast hd
  refine ⟨by positivity, ?_, ?_⟩
  · simp only [crossed, Nat.pow_eq]
    push_cast
    field_simp
  · rw [toRat, zpow_eq_div 10]
    simp only [crossed, Nat.pow_eq]
    push_cast
    field_simp

theorem isAbove_iff {orEqual : Bool} (hd : 0 < den) : d.isAbove num den orEqual = true ↔
    (num : ℚ) / den < d.toRat ∨ (num : ℚ) / den = d.toRat ∧ orEqual = true := by
  obtain ⟨pos, left, right⟩ := d.crossed_div num hd
  rw [← mul_lt_mul_iff_left₀ pos, ← mul_left_inj' pos.ne', ← left, ← right]
  simp only [isAbove, Bool.or_eq_true, Bool.and_eq_true, decide_eq_true_eq]
  norm_cast
  rw [and_comm]

theorem isBelow_iff {orEqual : Bool} (hd : 0 < den) : d.isBelow num den orEqual = true ↔
    d.toRat < num / den ∨ d.toRat = num / den ∧ orEqual = true := by
  obtain ⟨pos, left, right⟩ := d.crossed_div num hd
  rw [← mul_lt_mul_iff_left₀ pos, ← mul_left_inj' pos.ne', ← left, ← right]
  simp only [isBelow, Bool.or_eq_true, Bool.and_eq_true, decide_eq_true_eq]
  norm_cast
  rw [and_comm]

theorem toRat_next (d : Decimal) : d.next.toRat = d.toRat + 10 ^ d.exponent := by
  simp only [toRat, next]
  push_cast
  ring

theorem toRat_below (num : ℕ) (hd : 0 < den) (e : ℤ) :
    (below num den e).toRat ≤ num / den ∧ (num : ℚ) / den < (below num den e).toRat + 10 ^ e := by
  have hd' : (0 : ℚ) < den := by exact_mod_cast hd
  have unit : 0 < den * 10 ^ e.toNat := Nat.mul_pos hd (by positivity)
  obtain ⟨q, hq⟩ : ∃ q, q = num * 10 ^ (-e).toNat / (den * 10 ^ e.toNat) := ⟨_, rfl⟩
  have low : (q : ℚ) * (den * 10 ^ e.toNat) ≤ num * 10 ^ (-e).toNat := by
    exact_mod_cast hq ▸ Nat.div_mul_le_self _ _
  have high : (num : ℚ) * 10 ^ (-e).toNat < (q + 1) * (den * 10 ^ e.toNat) := by
    rw [mul_comm ((q : ℚ) + 1)]
    exact_mod_cast hq ▸ Nat.lt_mul_div_succ (num * 10 ^ (-e).toNat) unit
  have form : (below num den e).toRat = q * 10 ^ e := by simp only [toRat, below, Nat.pow_eq, hq]
  rw [form, zpow_eq_div 10]
  constructor
  · rw [mul_div_assoc', div_le_div_iff₀ (by positivity) hd']
    linarith
  · rw [mul_div_assoc', ← add_div, div_lt_div_iff₀ hd' (by positivity)]
    linarith

end Decimal

def RoundingInterval.lowRat (r : RoundingInterval) : ℚ := r.low / r.scale

namespace RoundingInterval

variable {r : RoundingInterval}

def valueRat (r : RoundingInterval) : ℚ := r.value / r.scale

def highRat (r : RoundingInterval) : ℚ := r.high / r.scale

structure Proper (r : RoundingInterval) : Prop where
  scale : 0 < r.scale
  low : r.lowRat < r.valueRat
  high : r.valueRat < r.highRat

theorem contains_iff (h : r.Proper) (d : Decimal) : r.contains d = true ↔
    (r.lowRat < d.toRat ∨ r.lowRat = d.toRat ∧ r.closed = true) ∧
      (d.toRat < r.highRat ∨ d.toRat = r.highRat ∧ r.closed = true) := by
  rw [contains, Bool.and_eq_true, Decimal.isAbove_iff h.scale, Decimal.isBelow_iff h.scale]
  rfl

/-- A decimal inside the interval, and the decimal next to it on the other side of the
value is not inside or not nearer. -/
structure Chosen (r : RoundingInterval) (d : Decimal) : Prop where
  contains : r.contains d = true
  near : d.toRat ≤ r.valueRat ∧ r.valueRat < d.toRat + 10 ^ d.exponent ∧
      (2 * (r.valueRat - d.toRat) ≤ 10 ^ d.exponent ∨ r.highRat ≤ d.toRat + 10 ^ d.exponent) ∨
    r.valueRat < d.toRat ∧ d.toRat - 10 ^ d.exponent ≤ r.valueRat ∧
      (2 * (d.toRat - r.valueRat) ≤ 10 ^ d.exponent ∨ d.toRat - 10 ^ d.exponent ≤ r.lowRat)

theorem nearer_iff {lower : Decimal} (h : r.Proper) (down : lower.toRat ≤ r.valueRat)
    (up : r.valueRat < lower.next.toRat) :
    let value := (lower.crossed r.value r.scale).1
    let below := value - (lower.crossed r.value r.scale).2
    let above := (lower.next.crossed r.value r.scale).2 - value
    (below ≤ above ↔ r.valueRat - lower.toRat ≤ lower.next.toRat - r.valueRat) ∧
      (above ≤ below ↔ lower.next.toRat - r.valueRat ≤ r.valueRat - lower.toRat) := by
  obtain ⟨pos, value, left⟩ := lower.crossed_div r.value h.scale
  obtain ⟨-, -, right⟩ := lower.next.crossed_div r.value h.scale
  change _ = lower.next.toRat * (r.scale * 10 ^ (-lower.exponent).toNat : ℚ) at right
  change _ = r.valueRat * _ at value
  have order : (lower.crossed r.value r.scale).2 ≤ (lower.crossed r.value r.scale).1 := by
    rw [← Nat.cast_le (α := ℚ), value, left]
    gcongr
  have order' : (lower.crossed r.value r.scale).1 ≤ (lower.next.crossed r.value r.scale).2 := by
    rw [← Nat.cast_le (α := ℚ), value, right]
    gcongr
  dsimp only
  rw [← Nat.cast_le (α := ℚ), ← Nat.cast_le (α := ℚ), Nat.cast_sub order, Nat.cast_sub order',
    value, left, right, ← sub_mul, ← sub_mul, mul_le_mul_iff_left₀ pos, mul_le_mul_iff_left₀ pos]
  exact ⟨Iff.rfl, Iff.rfl⟩

theorem chosen_of_neighbour? (h : r.Proper) {e : ℤ} {d : Decimal}
    (found : r.neighbour? e = some d) : r.Chosen d ∧ d.exponent = e := by
  obtain ⟨lower, hl⟩ : ∃ lower, lower = Decimal.below r.value r.scale e := ⟨_, rfl⟩
  obtain ⟨down, up⟩ : lower.toRat ≤ r.valueRat ∧ r.valueRat < lower.toRat + 10 ^ e :=
    hl ▸ Decimal.toRat_below r.value h.scale e
  have grid : lower.exponent = e := by rw [hl]; rfl
  have grid' : lower.next.exponent = e := grid
  have next : lower.next.toRat = lower.toRat + 10 ^ e := grid ▸ lower.toRat_next
  obtain ⟨below, above⟩ := nearer_iff h down (next ▸ up)
  rw [neighbour?, ← hl] at found
  dsimp only at found
  split at found
  next inside inside' =>
    simp only [Bool.or_eq_true, Bool.and_eq_true, decide_eq_true_eq] at found
    split at found
    next nearer =>
      obtain rfl := Option.some.inj found
      have le := below.mp (by omega)
      refine ⟨⟨inside, .inl ⟨down, grid ▸ up, .inl ?_⟩⟩, grid⟩
      rw [grid]
      linarith
    next nearer =>
      obtain rfl := Option.some.inj found
      have le := above.mp (by omega)
      refine ⟨⟨inside', .inr ⟨next ▸ up, ?_, .inl ?_⟩⟩, grid'⟩ <;>
      · rw [grid', next]
        linarith
  next inside outside =>
    obtain rfl := Option.some.inj found
    have apart := mt (contains_iff h lower.next).mpr (by simp [outside])
    have reached : r.lowRat < lower.next.toRat := h.low.trans (next ▸ up)
    refine ⟨⟨inside, .inl ⟨down, grid ▸ up, .inr ?_⟩⟩, grid⟩
    rw [grid, ← next]
    by_contra short
    exact apart ⟨.inl reached, .inl (not_le.mp short)⟩
  next outside inside =>
    obtain rfl := Option.some.inj found
    have apart := mt (contains_iff h lower).mpr (by simp [outside])
    have back : lower.next.toRat - 10 ^ lower.next.exponent = lower.toRat := by
      rw [grid', next, add_sub_cancel_right]
    refine ⟨⟨inside, .inr ⟨next ▸ up, back ▸ down, .inr ?_⟩⟩, grid'⟩
    rw [back]
    by_contra short
    exact apart ⟨.inl (not_le.mp short), .inl (down.trans_lt h.high)⟩
  next => cases found

theorem neighbour?_isSome (h : r.Proper) {e : ℤ} (fine : (10 : ℚ) ^ e ≤ r.valueRat - r.lowRat) :
    (r.neighbour? e).isSome = true := by
  obtain ⟨lower, hl⟩ : ∃ lower, lower = Decimal.below r.value r.scale e := ⟨_, rfl⟩
  obtain ⟨down, up⟩ : lower.toRat ≤ r.valueRat ∧ r.valueRat < lower.toRat + 10 ^ e :=
    hl ▸ Decimal.toRat_below r.value h.scale e
  have inside : r.contains lower = true :=
    (contains_iff h lower).mpr ⟨.inl (by linarith), .inl (down.trans_lt h.high)⟩
  rw [neighbour?, ← hl]
  dsimp only
  rw [inside]
  split <;> simp_all
  split <;> simp

theorem search_spec (h : r.Proper) {digits k : ℕ} {e : ℤ} (enough : k < digits)
    (fine : (10 : ℚ) ^ (e - k) ≤ r.valueRat - r.lowRat) :
    r.Chosen (r.search digits e) ∧ e - k ≤ (r.search digits e).exponent ∧
      (r.search digits e).exponent ≤ e := by
  induction digits generalizing k e with
  | zero => omega
  | succ digits ih =>
    rw [search]
    split
    next d found =>
      obtain ⟨chosen, same⟩ := chosen_of_neighbour? h found
      exact ⟨chosen, by omega, by omega⟩
    next missing =>
      cases k with
      | zero =>
        have some := neighbour?_isSome h (e := e) (by simpa using fine)
        simp [missing] at some
      | succ k =>
        have shift : e - (k + 1 : ℕ) = e - 1 - k := by omega
        rw [shift] at fine
        obtain ⟨chosen, low, high⟩ := ih (by omega) fine
        exact ⟨chosen, by omega, by omega⟩

theorem Chosen.coefficient_bounds {d : Decimal} (chosen : r.Chosen d) (h : r.Proper)
    (positive : 0 < r.lowRat) (large : r.valueRat < 10 ^ 9 * 10 ^ d.exponent) :
    0 < d.coefficient ∧ d.coefficient ≤ 10 ^ 9 := by
  have step : (0 : ℚ) < 10 ^ d.exponent := by positivity
  constructor
  · have reached : 0 < d.toRat := by
      rcases ((contains_iff h d).mp chosen.contains).1 with lt | ⟨eq, -⟩ <;> linarith
    rw [Decimal.toRat] at reached
    exact_mod_cast (mul_pos_iff_of_pos_right step).mp reached
  · have near : d.toRat ≤ r.valueRat + 10 ^ d.exponent := by
      rcases chosen.near with ⟨le, -⟩ | ⟨-, le, -⟩ <;> linarith
    rw [Decimal.toRat] at near
    have lt : (d.coefficient : ℚ) * 10 ^ d.exponent < (10 ^ 9 + 1 : ℕ) * 10 ^ d.exponent := by
      push_cast
      linarith
    have lt' : d.coefficient < 10 ^ 9 + 1 := by exact_mod_cast lt_of_mul_lt_mul_right lt step.le
    omega

section Magnitude

variable {d : Dyadic}

theorem rat_of (d : Dyadic) (k : ℕ) : ((k * Nat.pow 2 d.quantum.toNat : ℕ) : ℚ) /
    (4 * d.denominator : ℕ) = k * 2 ^ d.quantum / 4 := by
  rw [zpow_eq_div 2, Dyadic.denominator]
  simp only [Nat.pow_eq]
  push_cast
  field_simp

theorem valueRat_of (d : Dyadic) : (RoundingInterval.of d).valueRat = d.toRat := by
  have rat := rat_of d (4 * d.significand)
  simp only [valueRat, RoundingInterval.of, Dyadic.toRat, rat]
  push_cast
  ring

theorem highRat_of (d : Dyadic) : (RoundingInterval.of d).highRat = d.toRat + d.half := by
  have rat := rat_of d (4 * d.significand + 2)
  simp only [highRat, RoundingInterval.of, Dyadic.toRat, Dyadic.half, rat]
  push_cast
  ring

/-- Below a power of two the next point of the grid is half as far. -/
theorem lowRat_of (pos : 0 < d.significand) : (RoundingInterval.of d).lowRat =
    d.toRat - if d.significand = 0x800000 ∧ -149 < d.quantum then d.half / 2 else d.half := by
  have rat (k : ℕ) := rat_of d (4 * d.significand - k)
  simp only [lowRat, RoundingInterval.of, Dyadic.toRat, Dyadic.half, rat, Bool.and_eq_true,
    decide_eq_true_eq]
  split_ifs
  · rw [Nat.cast_sub (by omega)]
    push_cast
    ring
  · rw [Nat.cast_sub (by omega)]
    push_cast
    ring

theorem lowRat_bounds (pos : 0 < d.significand) : 0 < (RoundingInterval.of d).lowRat ∧
    (RoundingInterval.of d).lowRat ≤ d.toRat - d.half / 2 := by
  have half := d.half_pos
  have one : 2 * d.half ≤ d.toRat := by
    have one : (1 : ℚ) ≤ d.significand := by exact_mod_cast pos
    have unit : (0 : ℚ) < 2 ^ d.quantum := by positivity
    rw [Dyadic.half, Dyadic.toRat]
    nlinarith
  rw [lowRat_of pos]
  split_ifs <;> constructor <;> linarith

theorem proper_of (pos : 0 < d.significand) : (RoundingInterval.of d).Proper := by
  have half := d.half_pos
  refine ⟨Nat.mul_pos (by decide) d.denominator_pos, ?_, ?_⟩
  · rw [valueRat_of]
    linarith [(lowRat_bounds pos).2]
  · rw [highRat_of, valueRat_of]
    linarith

end Magnitude

end RoundingInterval

namespace Decimal

theorem trimmed_spec (n : ℕ) (d : Decimal) :
    (d.trimmed n).toRat = d.toRat ∧ (d.trimmed n).coefficient ≤ d.coefficient ∧
      d.exponent ≤ (d.trimmed n).exponent ∧ (d.trimmed n).exponent ≤ d.exponent + n := by
  induction n generalizing d with
  | zero => simp [trimmed]
  | succ n ih =>
    rw [trimmed]
    split
    next zero =>
      simp only [Bool.and_eq_true, decide_eq_true_eq] at zero
      obtain ⟨value, smaller, low, high⟩ := ih ⟨d.coefficient / 10, d.exponent + 1⟩
      refine ⟨?_, smaller.trans (Nat.div_le_self _ _), ?_, ?_⟩
      · have whole : (d.coefficient : ℚ) = (d.coefficient / 10 : ℕ) * 10 := by
          exact_mod_cast (Nat.div_mul_cancel (Nat.dvd_of_mod_eq_zero zero.2)).symm
        rw [value, toRat, toRat, whole, zpow_add_one₀ (by norm_num)]
        ring
      · simp only at low
        omega
      · simp only at high
        push_cast
        omega
    next => exact ⟨rfl, le_refl _, le_refl _, by omega⟩

end Decimal

namespace Binary32

variable {d : Dyadic}

def foundDecimal (d : Dyadic) : Decimal :=
  let r := RoundingInterval.of d
  r.search 9 (floorLog10 r.value r.scale)

theorem toRat_bounds (h : BinaryGrid.single.Canonical d) (pos : 0 < d.significand)
    (top : d.quantum ≤ 104) : (2 : ℚ) ^ (-149 : ℤ) ≤ d.toRat ∧ d.toRat < 2 ^ (128 : ℤ) := by
  have one : (1 : ℚ) ≤ d.significand := by exact_mod_cast pos
  have small : (d.significand : ℚ) < 2 ^ 24 := by exact_mod_cast h.lt
  rw [Dyadic.toRat]
  constructor
  · calc (2 : ℚ) ^ (-149 : ℤ) ≤ 2 ^ d.quantum := zpow_le_zpow_right₀ one_le_two h.low
      _ = 1 * 2 ^ d.quantum := (one_mul _).symm
      _ ≤ d.significand * 2 ^ d.quantum := by gcongr
  · calc (d.significand : ℚ) * 2 ^ d.quantum < 2 ^ 24 * 2 ^ d.quantum := by gcongr
      _ ≤ 2 ^ 24 * 2 ^ (104 : ℤ) := by
        gcongr
        exact one_le_two
      _ = 2 ^ (128 : ℤ) := by norm_num

theorem floorLog10_of (h : BinaryGrid.single.Canonical d) (pos : 0 < d.significand)
    (top : d.quantum ≤ 104) :
    let e := floorLog10 (RoundingInterval.of d).value (RoundingInterval.of d).scale
    (10 : ℚ) ^ e ≤ d.toRat ∧ d.toRat < 10 ^ (e + 1) ∧ -45 ≤ e ∧ e < 39 := by
  intro e
  obtain ⟨bottom, ceiling⟩ := toRat_bounds h pos top
  have value := RoundingInterval.valueRat_of d
  rw [RoundingInterval.valueRat] at value
  have nonzero : 0 < (RoundingInterval.of d).value :=
    Nat.mul_pos (Nat.mul_pos (by decide) pos) (Nat.two_pow_pos _)
  obtain ⟨below, above⟩ := floorLog10_spec nonzero (RoundingInterval.proper_of pos).scale
    (value ▸ bottom) (value ▸ ceiling)
  rw [value] at below above
  have least : -45 < e + 1 := by
    apply (zpow_lt_zpow_iff_right₀ (show (1 : ℚ) < 10 by norm_num)).mp
    calc (10 : ℚ) ^ (-45 : ℤ) < 2 ^ (-149 : ℤ) := by norm_num
      _ < 10 ^ (e + 1) := bottom.trans_lt above
  have most : e < 39 := by
    apply (zpow_lt_zpow_iff_right₀ (show (1 : ℚ) < 10 by norm_num)).mp
    calc (10 : ℚ) ^ e < 2 ^ (128 : ℤ) := below.trans_lt ceiling
      _ < 10 ^ (39 : ℤ) := by norm_num
  exact ⟨below, above, by omega, most⟩

theorem foundDecimal_spec (h : BinaryGrid.single.Canonical d) (pos : 0 < d.significand)
    (top : d.quantum ≤ 104) :
    (RoundingInterval.of d).Chosen (foundDecimal d) ∧ -53 ≤ (foundDecimal d).exponent ∧
      (foundDecimal d).exponent ≤ 38 ∧ 0 < (foundDecimal d).coefficient ∧
      (foundDecimal d).coefficient ≤ 10 ^ 9 := by
  obtain ⟨below, above, least, most⟩ := floorLog10_of h pos top
  obtain ⟨r, hr⟩ : ∃ r, r = RoundingInterval.of d := ⟨_, rfl⟩
  have found : foundDecimal d = r.search 9 (floorLog10 r.value r.scale) := by rw [hr]; rfl
  have proper := RoundingInterval.proper_of pos
  have value := RoundingInterval.valueRat_of d
  obtain ⟨positive, apart⟩ := RoundingInterval.lowRat_bounds pos
  rw [← hr] at below above least most proper value positive apart ⊢
  rw [found]
  generalize floorLog10 r.value r.scale = e at *
  have fine : (10 : ℚ) ^ (e - (8 : ℕ)) ≤ r.valueRat - r.lowRat := by
    have size := d.toRat_lt_half h.lt
    rw [zpow_sub₀ (by norm_num), value]
    calc (10 : ℚ) ^ e / 10 ^ (8 : ℤ) ≤ d.toRat / 10 ^ (8 : ℤ) := by gcongr
      _ ≤ d.half / 2 := by
        rw [div_le_iff₀ (by positivity)]
        norm_num
        linarith
      _ ≤ d.toRat - r.lowRat := by linarith
  obtain ⟨chosen, first, last⟩ := RoundingInterval.search_spec proper (show 8 < 9 by decide) fine
  refine ⟨chosen, by omega, by omega, chosen.coefficient_bounds proper positive ?_⟩
  calc r.valueRat < 10 ^ (e + 1) := value ▸ above
    _ ≤ 10 ^ (9 + (r.search 9 e).exponent) := zpow_le_zpow_right₀ (by norm_num) (by omega)
    _ = 10 ^ 9 * 10 ^ (r.search 9 e).exponent := by
      rw [zpow_add₀ (by norm_num)]
      norm_cast

end Binary32

end MarkerLattice
