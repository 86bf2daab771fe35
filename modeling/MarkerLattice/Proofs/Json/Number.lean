import Mathlib.Tactic
import MarkerLattice.Proofs.Json.Lexer

/-! Whole numbers are read back from their digits. -/
namespace MarkerLattice

namespace Digit

variable {n : ℕ} {digits : List Digit}

theorem pushNat_eq_append (n : ℕ) (digits : List Digit) : pushNat n digits = ofNat n ++ digits := by
  induction n using Nat.strongRecOn generalizing digits with
  | ind n ih =>
    rw [ofNat, pushNat.eq_def n digits, pushNat.eq_def n []]
    split
    next => rfl
    next h =>
      have less : n / 10 < n := by omega
      rw [ih _ less, ih _ less [_], List.append_assoc, List.singleton_append]

theorem ofNat_of_lt (h : n < 10) : ofNat n = [⟨n, h⟩] := by
  rw [ofNat, pushNat, dif_pos h]

theorem ofNat_of_le (h : 10 ≤ n) :
    ofNat n = ofNat (n / 10) ++ [⟨n % 10, Nat.mod_lt n (by decide)⟩] := by
  rw [ofNat, pushNat, dif_neg (by omega), pushNat_eq_append]

theorem toNat_ofNat (n : ℕ) : toNat (ofNat n) = n := by
  induction n using Nat.strongRecOn with
  | ind n ih =>
    rcases lt_or_ge n 10 with small | large
    · simp [ofNat_of_lt small, toNat]
    · have inner := ih (n / 10) (by omega)
      rw [toNat] at inner
      rw [ofNat_of_le large, toNat, List.foldl_append, inner]
      simp only [List.foldl_cons, List.foldl_nil]
      omega

theorem ofNat_eq_cons (h : 0 < n) : ∃ d rest, ofNat n = d :: rest ∧ d ≠ 0 := by
  induction n using Nat.strongRecOn with
  | ind n ih =>
    rcases lt_or_ge n 10 with small | large
    · exact ⟨_, [], ofNat_of_lt small, fun zero => by simp [Fin.ext_iff] at zero; omega⟩
    · obtain ⟨d, rest, same, nonzero⟩ := ih (n / 10) (by omega) (by omega)
      rw [ofNat_of_le large, same]
      exact ⟨d, _, rfl, nonzero⟩

theorem ofNat_ne_nil (n : ℕ) : ofNat n ≠ [] := by
  rcases n.eq_zero_or_pos with rfl | pos
  · simp [ofNat_of_lt]
  · obtain ⟨d, rest, same, -⟩ := ofNat_eq_cons pos
    simp [same]

end Digit

namespace JsonNumber

theorem isWhole_cons {d : Digit} (h : d ≠ 0) (digits : List Digit) :
    isWhole (d :: digits) = true := by
  cases digits with
  | nil => rfl
  | cons => simpa [isWhole] using h

theorem isWhole_ofNat (n : ℕ) : isWhole (Digit.ofNat n) = true := by
  rcases n.eq_zero_or_pos with rfl | pos
  · simp [Digit.ofNat_of_lt, isWhole]
  · obtain ⟨d, rest, same, nonzero⟩ := Digit.ofNat_eq_cons pos
    rw [same, isWhole_cons nonzero]

theorem sound_ofInt (n : ℤ) : (ofInt n).Sound where
  whole := isWhole_ofNat n.natAbs
  exponent := by simp [ofInt]

theorem toInt?_ofInt (n : ℤ) : toInt? (ofInt n) = some n := by
  simp only [ofInt, toInt?, List.isEmpty_nil, Option.isNone_none, Bool.and_self, if_true,
    Digit.toNat_ofNat, decide_eq_true_eq]
  rcases lt_or_ge n 0 with negative | positive
  · rw [if_pos negative, if_neg (by omega)]
    congr 1
    omega
  · rw [if_neg (by omega)]
    congr 1
    omega

end JsonNumber

end MarkerLattice
