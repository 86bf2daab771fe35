import Mathlib.Tactic
import MarkerLattice.Proofs.Json.Number

/-! The digits and the power of ten that a written decimal is read as. -/
namespace MarkerLattice

namespace Digit

theorem toNat_concat (digits : List Digit) (d : Digit) :
    toNat (digits ++ [d]) = 10 * toNat digits + d.val := by
  simp [toNat]

theorem toNat_append (front back : List Digit) :
    toNat (front ++ back) = toNat front * 10 ^ back.length + toNat back := by
  induction back using List.reverseRecOn with
  | nil => simp [toNat]
  | append_singleton back d ih =>
    rw [← List.append_assoc, toNat_concat, toNat_concat, ih, List.length_append,
      List.length_singleton]
    ring

theorem toNat_zeros (n : ℕ) : toNat (List.replicate n 0) = 0 := by
  induction n with
  | zero => rfl
  | succ n ih => simp [List.replicate_succ', toNat_concat, ih]

theorem toNat_lt (digits : List Digit) : toNat digits < 10 ^ digits.length := by
  induction digits using List.reverseRecOn with
  | nil => simp [toNat]
  | append_singleton digits d ih =>
    rw [toNat_concat, List.length_append, List.length_singleton, pow_succ]
    omega

theorem pow_length_le {d : Digit} (h : d ≠ 0) (rest : List Digit) :
    10 ^ rest.length ≤ toNat (d :: rest) := by
  have pos : 1 ≤ d.val := Nat.one_le_iff_ne_zero.mpr fun zero => h (Fin.ext zero)
  have front := toNat_append [d] rest
  rw [List.singleton_append] at front
  calc 10 ^ rest.length ≤ d.val * 10 ^ rest.length := Nat.le_mul_of_pos_left _ pos
    _ ≤ toNat (d :: rest) := by
      rw [front]
      simp [toNat]

end Digit

namespace JsonNumber

theorem absorb_eq {n : ℕ} {digits : List Digit}
    (fits : n * 10 ^ digits.length + Digit.toNat digits < UInt64.size) :
    absorb n digits = (n * 10 ^ digits.length + Digit.toNat digits, []) := by
  induction digits generalizing n with
  | nil => simp [absorb, Digit.toNat]
  | cons d rest ih =>
    have split : n * 10 ^ (d :: rest).length + Digit.toNat (d :: rest) =
        (10 * n + d.val) * 10 ^ rest.length + Digit.toNat rest := by
      have front := Digit.toNat_append [d] rest
      rw [List.singleton_append] at front
      rw [front, List.length_cons]
      simp only [Digit.toNat, List.foldl_cons, List.foldl_nil]
      ring
    rw [split] at fits ⊢
    have small : 10 * n + d.val < UInt64.size := by
      have one : 1 ≤ 10 ^ rest.length := Nat.one_le_pow' _ _
      nlinarith
    rw [absorb, if_pos small, ih fits]

def power (n : JsonNumber) : ℤ :=
  (match n.exponent with
    | none => 0
    | some (sign, e) => if sign = .minus then -(Digit.toNat e : ℤ) else Digit.toNat e) -
  n.fraction.length

/-- A number that is not written as a whole one, with `digits` that count `10 ^ power`. -/
structure Counts (n : JsonNumber) (digits : ℕ) (power : ℤ) : Prop where
  sound : n.Sound
  written : n.fraction ≠ [] ∨ n.exponent ≠ none
  digits : Digit.toNat (n.whole ++ n.fraction) = digits
  power : n.power = power
  near : ∀ e ∈ n.exponent, Digit.toNat e.2 < 0x80000000

theorem Counts.toBinary32? {n : JsonNumber} {digits : ℕ} {power : ℤ} (h : n.Counts digits power)
    (fits : digits < UInt64.size) : n.toBinary32? = ofParts? n.negative digits power := by
  obtain ⟨-, written, rfl, rfl, near⟩ := h
  obtain ⟨negative, whole, fraction, exponent⟩ := n
  simp only at written fits near
  rw [Digit.toNat_append] at fits
  have front : absorb 0 whole = (Digit.toNat whole, []) := by
    have size : Digit.toNat whole < UInt64.size := by
      have one : 1 ≤ 10 ^ fraction.length := Nat.one_le_pow' _ _
      nlinarith
    have start : 0 * 10 ^ whole.length + Digit.toNat whole < UInt64.size := by simpa using size
    simpa using absorb_eq start
  have back := absorb_eq fits
  have form : (fraction.isEmpty && exponent.isNone) = false := by
    rcases written with filled | some
    · simp [filled]
    · cases exponent <;> simp_all
  simp only [JsonNumber.toBinary32?, front, back, List.isEmpty_nil, Bool.true_and, form,
    Bool.false_and, Bool.false_eq_true, if_false, List.length_nil, Nat.sub_zero,
    Digit.toNat_append, JsonNumber.power]
  cases exponent with
  | none => simp
  | some e =>
    obtain ⟨sign, e⟩ := e
    have small := near _ rfl
    simp only at small
    have apart : ¬(0x80000000 : ℤ) ≤ Digit.toNat e := by omega
    simp only [apart, if_false]
    congr 1
    split <;> omega

section Written

variable (negative : Bool) {digits : List Digit} {d : Digit} {rest : List Digit} {e : ℤ}

theorem counts_small (filled : digits ≠ []) (small : e + digits.length - 1 < 0) :
    Counts ⟨negative, [0],
      List.replicate (-(e + digits.length - 1) - 1).toNat 0 ++ digits, none⟩
      (Digit.toNat digits) e where
  sound := ⟨rfl, nofun⟩
  written := .inl (by simp [filled])
  digits := by
    rw [← List.append_assoc, Digit.toNat_append, ← List.replicate_one,
      List.replicate_append_replicate, Digit.toNat_zeros]
    simp
  power := by
    simp only [power, List.length_append, List.length_replicate]
    omega
  near := nofun

theorem counts_scientific {top : ℤ} (first : digits = d :: rest)
    (same : top = e + digits.length - 1) (near : top.natAbs < 0x80000000) :
    Counts ⟨negative, digits.take 1, digits.drop 1,
      some (if top < 0 then .minus else .plus, Digit.ofNat top.natAbs)⟩ (Digit.toNat digits) e where
  sound := ⟨by simp [first, isWhole], by simp [Digit.ofNat_ne_nil]⟩
  written := .inr (by simp)
  digits := by simp [first]
  power := by
    have length : digits.length = rest.length + 1 := by rw [first, List.length_cons]
    have sign : (if (if top < 0 then ExponentSign.minus else .plus) = .minus then
        -(top.natAbs : ℤ) else top.natAbs) = top := by
      rcases lt_or_ge top 0 with below | above
      · simp only [below, if_true]
        omega
      · simp only [not_lt.mpr above, if_false, reduceCtorEq]
        omega
    simp only [power, Digit.toNat_ofNat, List.length_drop, sign]
    omega
  near := by simpa [Digit.toNat_ofNat] using near

theorem counts_within (first : digits = d :: rest) (nonzero : d ≠ 0) {count : ℕ}
    (some : 0 < count) (long : count < digits.length) :
    Counts ⟨negative, digits.take count, digits.drop count, none⟩ (Digit.toNat digits)
      (count - digits.length) where
  sound := by
    obtain ⟨n, rfl⟩ := Nat.exists_eq_add_one.mpr some
    refine ⟨?_, nofun⟩
    simp only [first, List.take_succ_cons]
    exact isWhole_cons nonzero _
  written := .inl (by simp [long])
  digits := by simp
  power := by
    simp only [power, List.length_drop]
    omega
  near := nofun

theorem counts_whole (first : digits = d :: rest) (nonzero : d ≠ 0) (n : ℕ) :
    Counts ⟨negative, digits ++ List.replicate n 0, [0], none⟩
      (Digit.toNat digits * 10 ^ (n + 1)) (-1) where
  sound := by
    refine ⟨?_, nofun⟩
    simp only [first, List.cons_append]
    exact isWhole_cons nonzero _
  written := .inl (by simp)
  digits := by
    have zero : Digit.toNat [0] = 0 := rfl
    simp [Digit.toNat_append, Digit.toNat_zeros, zero, pow_succ]
  power := by simp [power]
  near := nofun

/-- What is written of digits counts as they do, but a whole number has a zero behind its
point. -/
theorem counts_ofDigits (first : digits = d :: rest) (nonzero : d ≠ 0)
    (near : (e + digits.length - 1).natAbs < 0x80000000) :
    let n := ofDigits negative digits (e + digits.length - 1)
    n.Counts (Digit.toNat digits) e ∨ 0 ≤ e ∧ e + digits.length ≤ 13 ∧
      n.Counts (Digit.toNat digits * 10 ^ (e.toNat + 1)) (-1) := by
  dsimp only
  rw [ofDigits]
  split
  next plain =>
    rw [Bool.and_eq_true, decide_eq_true_eq, decide_eq_true_eq] at plain
    simp only [layout] at plain
    split
    next small => exact .inl (counts_small negative (by simp [first]) small)
    next large =>
      obtain ⟨count, top⟩ : ∃ count : ℕ, count = (e + digits.length - 1).toNat + 1 := ⟨_, rfl⟩
      have shift : (count : ℤ) - digits.length = e := by omega
      simp only [← top]
      rcases le_or_gt digits.length count with short | long
      · right
        have zeros : count - digits.length = e.toNat := by omega
        simp only [List.drop_eq_nil_iff.mpr short, List.take_of_length_le short, zeros,
          List.isEmpty_nil, if_true]
        exact ⟨by omega, by omega, counts_whole negative first nonzero _⟩
      · left
        have behind : (digits.drop count).isEmpty = false := by simp [long]
        have zeros : count - digits.length = 0 := by omega
        have counts := counts_within negative first nonzero (by omega) long
        simpa only [behind, zeros, List.replicate_zero, List.append_nil, shift, Bool.false_eq_true,
          if_false] using counts
  next => exact .inl (counts_scientific negative first rfl near)

end Written

end JsonNumber

end MarkerLattice
