import Mathlib
import MarkerLattice.Random

/-! A shuffle arranges what it is given, and its draws and swaps do not look at
the elements. -/
namespace MarkerLattice.RandomStream

variable {σ : Type} [RandomStream σ] {α β : Type}

theorem swapIfInBounds_perm (a : Array α) (i j : Nat) : (a.swapIfInBounds i j).Perm a := by
  unfold Array.swapIfInBounds
  split
  · split
    · exact Array.swap_perm _ _
    · exact .refl a
  · exact .refl a

theorem map_swapIfInBounds (f : α → β) (a : Array α) (i j : Nat) :
    (a.map f).swapIfInBounds i j = (a.swapIfInBounds i j).map f := by
  apply Array.ext
  · simp
  · intro k hk hk'
    simp only [Array.getElem_swapIfInBounds, Array.size_map, Array.getElem_map]
    split
    · rfl
    · split <;> rfl

theorem shuffleFrom_perm (n : Nat) (a : Array α) (s : σ) : (shuffleFrom n a s).1.Perm a := by
  induction n generalizing a s with
  | zero => exact .refl a
  | succ n ih =>
    rw [shuffleFrom]
    exact (ih _ _).trans (swapIfInBounds_perm a _ _)

theorem shuffle_perm (a : Array α) (s : σ) : (shuffle a s).1.Perm a :=
  shuffleFrom_perm _ a s

theorem shuffleFrom_map (f : α → β) (n : Nat) (a : Array α) (s : σ) :
    shuffleFrom n (a.map f) s = ((shuffleFrom n a s).1.map f, (shuffleFrom n a s).2) := by
  induction n generalizing a s with
  | zero => rfl
  | succ n ih =>
    simp only [shuffleFrom, map_swapIfInBounds]
    exact ih _ _

theorem shuffle_map (f : α → β) (a : Array α) (s : σ) :
    shuffle (a.map f) s = ((shuffle a s).1.map f, (shuffle a s).2) := by
  rw [shuffle, Array.size_map]
  exact shuffleFrom_map f _ a s

theorem shuffle_forall₂ {R : α → β → Prop} {a : List α} {b : List β}
    (h : List.Forall₂ R a b) (s : σ) :
    List.Forall₂ R (shuffle a.toArray s).1.toList (shuffle b.toArray s).1.toList ∧
      (shuffle a.toArray s).2 = (shuffle b.toArray s).2 := by
  obtain ⟨length, related⟩ := List.forall₂_iff_zip.mp h
  have left : (a.zip b).toArray.map Prod.fst = a.toArray := by
    rw [List.map_toArray, List.map_fst_zip length.le]
  have right : (a.zip b).toArray.map Prod.snd = b.toArray := by
    rw [List.map_toArray, List.map_snd_zip length.ge]
  rw [← left, ← right, shuffle_map, shuffle_map]
  refine ⟨?_, rfl⟩
  rw [Array.toList_map, Array.toList_map, List.forall₂_map_left_iff,
    List.forall₂_map_right_iff, List.forall₂_same]
  intro pair hpair
  exact related ((shuffle_perm (a.zip b).toArray s).toList.mem_iff.mp hpair)

end MarkerLattice.RandomStream
