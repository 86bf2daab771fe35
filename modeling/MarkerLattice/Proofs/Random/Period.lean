import Mathlib
import MarkerLattice.Proofs.Random.Requests
import MarkerLattice.Random.Congruential

/-! The period of the congruential stream. A draw of any kind is one step of the state,
which multiplies and adds. A number of steps moves a state by the sum of as many powers of
the multiplier, taken an odd number of times if the increment is odd. If the multiplier is
one more than a multiple of four, the sum has as many factors of two as the number of its
terms, so only multiples of `2 ^ 32` steps bring a state back. -/
namespace MarkerLattice

theorem two_pow_dvd_geom_sum_iff {a : ℤ} (four : 4 ∣ a - 1) (m k : ℕ) :
    2 ^ m ∣ ∑ i ∈ Finset.range k, a ^ i ↔ 2 ^ m ∣ k := by
  by_cases one : a = 1
  · rw [one]
    simp only [one_pow, Finset.sum_const, Finset.card_range, nsmul_eq_mul, mul_one]
    norm_cast
  have odd : ¬ 2 ∣ a := by omega
  -- Times `a - 1` the sum is `a ^ k - 1`, which has the factors of two of `a - 1` and of `k`.
  have lifted := Int.two_pow_sub_pow' k four odd
  rw [one_pow, ← geom_sum_mul, emultiplicity_mul Int.prime_two, add_comm] at lifted
  have finite : emultiplicity 2 (a - 1) ≠ ⊤ :=
    finiteMultiplicity_iff_emultiplicity_ne_top.mp
      (Int.finiteMultiplicity_iff.mpr ⟨by decide, sub_ne_zero.mpr one⟩)
  have same := ENat.add_right_injective_of_ne_top finite lifted
  rw [pow_dvd_iff_le_emultiplicity, same, ← pow_dvd_iff_le_emultiplicity]
  norm_cast

def IsAffine (a c : ℤ) (f : UInt32 → UInt32) : Prop :=
  ∀ x, ((f x).toNat : ℤ) ≡ a * x.toNat + c [ZMOD 2 ^ 32]

theorem toNat_modEq_iff (x y : UInt32) : (x.toNat : ℤ) ≡ y.toNat [ZMOD 2 ^ 32] ↔ x = y := by
  have hx := x.toNat_lt
  have hy := y.toNat_lt
  rw [← UInt32.toNat_inj, Int.ModEq]
  omega

namespace IsAffine

variable {a c : ℤ} {f : UInt32 → UInt32}

theorem iterate_modEq (affine : IsAffine a c f) (x : UInt32) (k : ℕ) :
    ((f^[k] x).toNat : ℤ) ≡ x.toNat +
      ((a - 1) * x.toNat + c) * ∑ i ∈ Finset.range k, a ^ i [ZMOD 2 ^ 32] := by
  induction k with
  | zero => simp
  | succ k ih =>
    rw [Function.iterate_succ_apply', geom_sum_succ]
    calc ((f (f^[k] x)).toNat : ℤ)
        ≡ a * (f^[k] x).toNat + c [ZMOD 2 ^ 32] := affine _
      _ ≡ a * (x.toNat + ((a - 1) * x.toNat + c) * ∑ i ∈ Finset.range k, a ^ i) + c
            [ZMOD 2 ^ 32] := (ih.mul_left _).add_right _
      _ = x.toNat + ((a - 1) * x.toNat + c) * (a * ∑ i ∈ Finset.range k, a ^ i + 1) := by
          ring

variable (affine : IsAffine a c f) (four : 4 ∣ a - 1) (odd : ¬ 2 ∣ c) (x : UInt32)
include affine four odd

/-- A word comes back with the multiples of `2 ^ 32`, and only with these. -/
theorem iterate_eq_iff (k : ℕ) : f^[k] x = x ↔ 2 ^ 32 ∣ k := by
  have moved := affine.iterate_modEq x k
  -- One summand is even whatever the word is, the other is not.
  have coprime : IsCoprime ((2 : ℤ) ^ 32) ((a - 1) * x.toNat + c) := by
    apply IsCoprime.pow_left
    rw [Int.prime_two.coprime_iff_not_dvd, dvd_add_right (Dvd.dvd.mul_right (by omega) _)]
    exact odd
  calc f^[k] x = x
      ↔ x.toNat + ((a - 1) * x.toNat + c) * ∑ i ∈ Finset.range k, a ^ i ≡
          x.toNat [ZMOD 2 ^ 32] := by
        rw [← toNat_modEq_iff]
        exact ⟨moved.symm.trans, moved.trans⟩
    _ ↔ 2 ^ 32 ∣ ((a - 1) * x.toNat + c) * ∑ i ∈ Finset.range k, a ^ i := by
        rw [Int.modEq_comm, Int.modEq_iff_dvd, add_sub_cancel_left]
    _ ↔ 2 ^ 32 ∣ ∑ i ∈ Finset.range k, a ^ i :=
        ⟨coprime.dvd_of_dvd_mul_left, fun h => h.mul_left _⟩
    _ ↔ 2 ^ 32 ∣ k := two_pow_dvd_geom_sum_iff four 32 k

theorem minimalPeriod_eq : Function.minimalPeriod f x = 2 ^ 32 := by
  have back := affine.iterate_eq_iff four odd x
  apply Nat.dvd_antisymm
  · exact Function.IsPeriodicPt.minimalPeriod_dvd ((back _).mpr dvd_rfl)
  · exact (back _).mp Function.iterate_minimalPeriod

theorem bijOn_iterate : Set.BijOn (f^[·] x) (Set.Iio (2 ^ 32)) Set.univ := by
  have different : Set.InjOn (f^[·] x) (Set.Iio (2 ^ 32)) := by
    rw [← affine.minimalPeriod_eq four odd x]
    exact Function.iterate_injOn_Iio_minimalPeriod
  refine ⟨fun _ _ => trivial, different, fun target _ => ?_⟩
  have injective : Function.Injective fun k : Fin (2 ^ 32) => (f^[k] x).toFin := by
    intro j k same
    exact Fin.ext (different j.isLt k.isLt (UInt32.toFin_inj.mp same))
  obtain ⟨k, reached⟩ := Finite.surjective_of_injective injective target.toFin
  exact ⟨k, k.isLt, UInt32.toFin_inj.mp reached⟩

end IsAffine

namespace Congruential

open RandomStream

theorem isAffine_step : IsAffine 196314165 907633515 step := by
  intro state
  unfold step
  rw [UInt32.toNat_add, UInt32.toNat_mul]
  push_cast
  rw [mul_comm 196314165]
  exact (Int.mod_modEq _ _).trans ((Int.mod_modEq _ _).add_right _)

theorem iterate_step_eq_iff (state : UInt32) (k : ℕ) :
    step^[k] state = state ↔ 2 ^ 32 ∣ k :=
  isAffine_step.iterate_eq_iff (by decide) (by decide) state k

theorem bijOn_iterate_step (state : UInt32) :
    Set.BijOn (step^[·] state) (Set.Iio (2 ^ 32)) Set.univ :=
  isAffine_step.bijOn_iterate (by decide) (by decide) state

theorem skip_eq : (skip : Congruential → Congruential) = advance := rfl

theorem nextWord_eq (s : Congruential) : nextWord s = (s.advance.state, s.advance) := rfl

theorem iterate_advance (s : Congruential) (k : ℕ) :
    advance^[k] s = { s with state := step^[k] s.state } := by
  induction k with
  | zero => rfl
  | succ k ih => rw [Function.iterate_succ_apply', ih, Function.iterate_succ_apply', advance]

theorem iterate_advance_eq_iff (s : Congruential) (k : ℕ) (state : UInt32) :
    advance^[k] s = { s with state } ↔ step^[k] s.state = state := by
  rw [iterate_advance, Congruential.mk.injEq, and_iff_right rfl]

theorem word_eq (s : Congruential) (k : ℕ) : word s k = step^[k] (step s.state) := by
  have next : (fun s : Congruential => (nextWord s).2) = advance := rfl
  rw [word, next, nextWord_eq, iterate_advance, advance, ← Function.iterate_succ_apply,
    Function.iterate_succ_apply']

/-- A counter beside the stream tells where it is: every draw is one step. -/
theorem stream_after_of_counted {s : Congruential} {c : Counted Congruential}
    (told : c.stream = advance^[c.drawn] s) (r : Request) :
    (r.after c).stream = advance^[(r.after c).drawn] s := by
  rw [Counted.stream_after, told]
  obtain word | ⟨k, skips⟩ := r.after_eq
  · rw [word, word, Counted.drawn_nextWord, Function.iterate_succ_apply', nextWord_eq]
  · rw [skips, skips, Counted.drawn_skip, Function.iterate_add_apply, skip_eq]

theorem stream_afterAll_of_counted {s : Congruential} {c : Counted Congruential}
    (told : c.stream = advance^[c.drawn] s) (requests : List Request) :
    (afterAll c requests).stream = advance^[(afterAll c requests).drawn] s := by
  induction requests generalizing c with
  | nil => exact told
  | cons r rest ih => exact ih (stream_after_of_counted told r)

theorem afterAll_eq (s : Congruential) (requests : List Request) :
    afterAll s requests = advance^[(afterAll (Counted.start s) requests).drawn] s := by
  have start : (Counted.start s).stream = advance^[(Counted.start s).drawn] s := rfl
  rw [← stream_afterAll_of_counted start, Counted.stream_afterAll]
  rfl

/-- The next `2 ^ 32` words of a stream are all the words there are, each of them once.
Requests of whatever kind bring the stream back if the number of draws made for them is a
multiple of `2 ^ 32`, and never else. So it stands at every state once before it is back. -/
theorem words_cycle (s : Congruential) :
    Set.BijOn (word s) (Set.Iio (2 ^ 32)) Set.univ ∧
    (∀ requests, afterAll s requests = s ↔
      2 ^ 32 ∣ (afterAll (Counted.start s) requests).drawn) ∧
    ∀ state, ∃! k, k < 2 ^ 32 ∧ skip^[k] s = { s with state } := by
  refine ⟨?_, fun requests => ?_, fun state => ?_⟩
  · rw [funext (word_eq s)]
    exact bijOn_iterate_step _
  · rw [afterAll_eq]
    exact (iterate_advance_eq_iff s _ s.state).trans (iterate_step_eq_iff _ _)
  · have cycle := bijOn_iterate_step s.state
    obtain ⟨k, below, reached⟩ := cycle.surjOn (Set.mem_univ state)
    rw [skip_eq]
    refine ⟨k, ⟨below, (iterate_advance_eq_iff s k state).mpr reached⟩, ?_⟩
    intro j ⟨early, there⟩
    exact cycle.injOn early below (((iterate_advance_eq_iff s j state).mp there).trans reached.symm)

end Congruential

end MarkerLattice
