import Mathlib
import MarkerLattice.Random

/-! How far a run goes in its stream, told by the fractions that it draws. A run
sees nothing of a stream but these fractions, so a counter beside the stream
changes nothing. -/
namespace MarkerLattice.RandomStream

variable {σ τ : Type} [RandomStream σ] [RandomStream τ] {α : Type}

def skip (s : σ) : σ := (nextFraction s).2

def fraction (s : σ) (k : ℕ) : Binary32 := (nextFraction (skip^[k] s)).1

theorem fraction_skip (s : σ) (n k : ℕ) : fraction (skip^[n] s) k = fraction s (k + n) := by
  rw [fraction, fraction, Function.iterate_add_apply]

theorem fraction_skip_congr {s : σ} {t : τ} (h : fraction s = fraction t) (n : ℕ) :
    fraction (skip^[n] s) = fraction (skip^[n] t) := by
  funext k
  rw [fraction_skip, fraction_skip, h]

theorem nextIndex_succ (count : ℕ) (s : σ) :
    nextIndex (count + 1) s = (indexOf (fraction s 0) (count + 1), skip s) := rfl

theorem indexOf_le (x : Binary32) (n : ℕ) : indexOf x (n + 1) ≤ n :=
  Nat.min_le_right _ _

/-- A shuffle draws once for every position but the first. -/
theorem shuffleFrom_skip (n : ℕ) (a : Array α) (s : σ) :
    (shuffleFrom n a s).2 = skip^[n] s := by
  induction n generalizing a s with
  | zero => rfl
  | succ n ih => exact ih _ (skip s)

theorem shuffle_skip (a : Array α) (s : σ) : (shuffle a s).2 = skip^[a.size - 1] s :=
  shuffleFrom_skip _ a s

theorem shuffleFrom_congr {s : σ} {t : τ} (h : fraction s = fraction t) (n : ℕ)
    (a : Array α) : (shuffleFrom n a s).1 = (shuffleFrom n a t).1 := by
  induction n generalizing a s t with
  | zero => rfl
  | succ n ih =>
    rw [shuffleFrom, shuffleFrom, nextIndex_succ, nextIndex_succ, h]
    exact ih (fraction_skip_congr h 1) _

theorem shuffle_congr {s : σ} {t : τ} (h : fraction s = fraction t) (a : Array α) :
    (shuffle a s).1 = (shuffle a t).1 :=
  shuffleFrom_congr h _ a

/-- A stream and what was drawn from it. -/
structure Counted (σ : Type) where
  stream : σ
  fractions : ℕ
  words : ℕ

namespace Counted

def start (s : σ) : Counted σ := ⟨s, 0, 0⟩

instance : RandomStream (Counted σ) where
  nextWord c :=
    let (word, s) := nextWord c.stream
    (word, { c with stream := s, words := c.words + 1 })
  nextFraction c :=
    let (x, s) := nextFraction c.stream
    (x, { c with stream := s, fractions := c.fractions + 1 })

theorem skip_iterate (c : Counted σ) (n : ℕ) :
    skip^[n] c = { c with stream := skip^[n] c.stream, fractions := c.fractions + n } := by
  induction n generalizing c with
  | zero => rfl
  | succ n ih =>
    have drawn : skip c = { c with stream := skip c.stream, fractions := c.fractions + 1 } := rfl
    rw [Function.iterate_succ_apply, ih, drawn, Function.iterate_succ_apply, add_right_comm]
    rfl

theorem fraction_eq (c : Counted σ) : fraction c = fraction c.stream := by
  funext k
  rw [fraction, skip_iterate]
  rfl

end Counted

end MarkerLattice.RandomStream
