import Mathlib
import MarkerLattice.Proofs.Lattice.Identifier

/-! The names on a slot. An effect writes to the names of its own slot in a way that
depends on these names only: where a marker ends up, and whether the same one is there
already, makes no difference to them. -/
namespace MarkerLattice

def Effect.onNames (e : Effect) (present : String → Bool) (name : String) : Bool :=
  match e with
  | .emit e => present name || name == e.name
  | .remove gone => present name && name != gone

namespace MarkerList

theorem add_eq (l : MarkerList) (m : Marker) : l.add m = l ∨ l.add m = l ++ [m] := by
  unfold add
  split
  · exact .inl rfl
  · exact .inr rfl

theorem hasName_add (l : MarkerList) (m : Marker) (name : String) :
    (l.add m).hasName name = (l.hasName name || name == m.name) := by
  unfold add
  split
  next same =>
    -- The marker that is there already has the name of the one left out.
    obtain ⟨n, hn, like⟩ := List.any_eq_true.mp same
    simp only [Marker.isSame, Bool.and_eq_true, beq_iff_eq] at like
    have present : name = m.name → l.hasName name = true := by
      rintro rfl
      exact List.any_eq_true.mpr ⟨n, hn, by simp [like.1]⟩
    rw [Bool.eq_iff_iff, Bool.or_eq_true, beq_iff_eq]
    exact (or_iff_left_of_imp present).symm
  next => simp [hasName, eq_comm, Bool.beq_eq_decide_eq]

theorem hasName_remove (l : MarkerList) (gone name : String) :
    (l.remove gone).hasName name = (l.hasName name && name != gone) := by
  rw [Bool.eq_iff_iff]
  simp only [hasName, remove, List.any_filter, List.any_eq_true, Bool.and_eq_true,
    decide_eq_true_eq, bne_iff_ne]
  constructor
  · rintro ⟨m, hm, stays, rfl⟩
    exact ⟨⟨m, hm, rfl⟩, stays⟩
  · rintro ⟨⟨m, hm, rfl⟩, stays⟩
    exact ⟨m, hm, stays, rfl⟩

theorem hasName_change (e : Effect) (id : Int32) (pose : Emission → Pose Binary32)
    (l : MarkerList) : (e.change id pose l).hasName = e.onNames l.hasName := by
  funext name
  cases e with
  | emit e => exact hasName_add l _ name
  | remove gone => exact hasName_remove l gone name

end MarkerList

namespace Scene

variable (s : Scene) (levels : Levels) (stance : Stance)

theorem contains_perform (e : Effect) (t : Slot) :
    (perform levels stance s e).contains t =
      if t = stance.slot ∧ s.window.contains t.coord = true then e.onNames (s.contains t)
      else s.contains t := by
  unfold contains
  rw [markers_perform]
  split
  · exact MarkerList.hasName_change e _ _ _
  · rfl

theorem contains_performAll (effects : List Effect) (t : Slot) :
    (s.performAll levels stance effects).contains t =
      if t = stance.slot ∧ s.window.contains t.coord = true then
        effects.foldl (fun present e => e.onNames present) (s.contains t)
      else s.contains t := by
  induction effects generalizing s with
  | nil => exact (ite_self _).symm
  | cons e rest ih =>
    rw [performAll, List.foldl_cons, ← performAll, ih, window_perform, contains_perform]
    split
    · rfl
    · rfl

end Scene

end MarkerLattice
