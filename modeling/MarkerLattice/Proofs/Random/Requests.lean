import Mathlib
import MarkerLattice.Proofs.Random.Draws

/-! Requests of every kind to a stream. Each of them takes words or fractions from the
stream and nothing else, so a counter beside the stream counts all draws. -/
namespace MarkerLattice.RandomStream

inductive Request where
  | word
  | fraction
  | index (count : ℕ)
  | inRange (lo hi : ℤ)
  | bool
  | shuffle (size : ℕ)

variable {σ : Type} [RandomStream σ]

def Request.after (s : σ) : Request → σ
  | word => (nextWord s).2
  | fraction => (nextFraction s).2
  | index count => (nextIndex count s).2
  | inRange lo hi => (nextInRange lo hi s).2
  | bool => (nextBool s).2
  | shuffle size => (RandomStream.shuffle (Array.range size) s).2

def afterAll (s : σ) (requests : List Request) : σ := requests.foldl Request.after s

def word (s : σ) (k : ℕ) : UInt32 := (nextWord ((fun s => (nextWord s).2)^[k] s)).1

/-- A request takes one word or so many fractions, of whatever stream. -/
theorem Request.after_eq (r : Request) :
    (∀ {σ : Type} [RandomStream σ] (s : σ), r.after s = (nextWord s).2) ∨
      ∃ k, ∀ {σ : Type} [RandomStream σ] (s : σ), r.after s = skip^[k] s := by
  cases r with
  | word => exact .inl fun _ => rfl
  | fraction => exact .inr ⟨1, fun _ => rfl⟩
  | index count =>
    cases count with
    | zero => exact .inr ⟨0, fun _ => rfl⟩
    | succ count => exact .inr ⟨1, fun _ => rfl⟩
  | inRange lo hi =>
    by_cases single : hi ≤ lo
    · exact .inr ⟨0, fun _ => by simp [after, nextInRange, single]⟩
    · refine .inr ⟨1, fun s => ?_⟩
      simp only [after, nextInRange, if_neg single]
      rfl
  | bool => exact .inr ⟨1, fun _ => rfl⟩
  | shuffle size => exact .inr ⟨size - 1, fun s => by simp [after, shuffle_skip]⟩

namespace Counted

def drawn (c : Counted σ) : ℕ := c.fractions + c.words

theorem nextWord_eq (c : Counted σ) : nextWord c = ((nextWord c.stream).1,
    { c with stream := (nextWord c.stream).2, words := c.words + 1 }) := rfl

theorem drawn_nextWord (c : Counted σ) : (nextWord c).2.drawn = c.drawn + 1 := by
  rw [nextWord_eq, drawn, drawn, add_assoc]

theorem drawn_skip (c : Counted σ) (k : ℕ) : (skip^[k] c).drawn = k + c.drawn := by
  rw [skip_iterate, drawn, drawn, add_right_comm, add_comm]

theorem stream_after (c : Counted σ) (r : Request) :
    (r.after c).stream = r.after c.stream := by
  obtain word | ⟨k, skips⟩ := r.after_eq
  · rw [word, word, nextWord_eq]
  · rw [skips, skips, skip_iterate]

theorem stream_afterAll (c : Counted σ) (requests : List Request) :
    (afterAll c requests).stream = afterAll c.stream requests := by
  induction requests generalizing c with
  | nil => rfl
  | cons r rest ih =>
    rw [afterAll, List.foldl_cons, ← afterAll, ih, stream_after]
    rfl

end Counted

end MarkerLattice.RandomStream
