import Mathlib
import MarkerLattice.Lattice.Scene
import MarkerLattice.Proofs.Binary32.Order
import MarkerLattice.Proofs.Lattice.Window

/-! The window of some markers is taken from their extreme locations. It is never
empty, and it holds the slot of every marker with a finite location. -/
namespace MarkerLattice

namespace Vec2

def IsFinite (v : Vec2 Binary32) : Prop := v.x.isFinite = true ∧ v.y.isFinite = true

def Le (v w : Vec2 Binary32) : Prop := v.x.le w.x = true ∧ v.y.le w.y = true

theorem Le.trans {u v w : Vec2 Binary32} (huv : u.Le v) (hvw : v.Le w) : u.Le w :=
  ⟨Binary32.le_trans huv.1 hvw.1, Binary32.le_trans huv.2 hvw.2⟩

end Vec2

namespace Scene

variable {cell : Vec2 Binary32}

def widen (b : Vec2 Binary32 × Vec2 Binary32) (p : Location) : Vec2 Binary32 × Vec2 Binary32 :=
  (⟨b.1.x.lower p.x, b.1.y.lower p.y⟩, ⟨b.2.x.upper p.x, b.2.y.upper p.y⟩)

structure Encloses (b : Vec2 Binary32 × Vec2 Binary32) (p : Vec2 Binary32) : Prop where
  low : b.1.Le p
  high : p.Le b.2

theorem widen_spec {b : Vec2 Binary32 × Vec2 Binary32} {p : Location} (low : b.1.IsFinite)
    (high : b.2.IsFinite) (hp : p.flat.IsFinite) :
    (widen b p).1.IsFinite ∧ (widen b p).2.IsFinite ∧ Encloses (widen b p) p.flat ∧
      ∀ q, Encloses b q → Encloses (widen b p) q := by
  have number {x : Binary32} := Binary32.isNaN_of_isFinite (x := x)
  have lowX := Binary32.lower_le (number low.1) (number hp.1)
  have lowY := Binary32.lower_le (number low.2) (number hp.2)
  have highX := Binary32.le_upper (number high.1) (number hp.1)
  have highY := Binary32.le_upper (number high.2) (number hp.2)
  refine ⟨⟨Binary32.isFinite_lower low.1 hp.1, Binary32.isFinite_lower low.2 hp.2⟩,
    ⟨Binary32.isFinite_upper high.1 hp.1, Binary32.isFinite_upper high.2 hp.2⟩,
    ⟨⟨lowX.2, lowY.2⟩, ⟨highX.2, highY.2⟩⟩, fun q hq => ⟨?_, ?_⟩⟩
  · exact Vec2.Le.trans ⟨lowX.1, lowY.1⟩ hq.low
  · exact hq.high.trans ⟨highX.1, highY.1⟩

theorem foldl_widen (ps : List Location) {b : Vec2 Binary32 × Vec2 Binary32}
    (low : b.1.IsFinite) (high : b.2.IsFinite) (finite : ∀ p ∈ ps, p.flat.IsFinite) :
    (ps.foldl widen b).1.IsFinite ∧ (ps.foldl widen b).2.IsFinite ∧
      ∀ q, Encloses b q ∨ q ∈ ps.map Vec3.flat → Encloses (ps.foldl widen b) q := by
  induction ps generalizing b with
  | nil => exact ⟨low, high, by simp⟩
  | cons p rest ih =>
    rw [List.forall_mem_cons] at finite
    obtain ⟨low', high', own, keeps⟩ := widen_spec low high finite.1
    obtain ⟨low'', high'', encloses⟩ := ih low' high' finite.2
    refine ⟨low'', high'', fun q hq => encloses q ?_⟩
    rw [List.map_cons, List.mem_cons] at hq
    rcases hq with old | rfl | later
    · exact .inl (keeps q old)
    · exact .inl own
    · exact .inr later

theorem bounds_spec {ps : List Location} (finite : ∀ p ∈ ps, p.flat.IsFinite) {p : Location}
    (hp : p ∈ ps) :
    (bounds ps).1.IsFinite ∧ (bounds ps).2.IsFinite ∧ Encloses (bounds ps) p.flat := by
  cases ps with
  | nil => cases hp
  | cons first rest =>
    have start := (List.forall_mem_cons.mp finite).1
    have all := foldl_widen (first :: rest) (b := (first.flat, first.flat)) start start finite
    exact ⟨all.1, all.2.1, all.2.2 _ (.inr (List.mem_map_of_mem hp))⟩

def Spans (b : Vec2 Binary32 × Vec2 Binary32) : Prop :=
  b.1.x.Spans b.2.x ∧ b.1.y.Spans b.2.y

theorem coord_ofLocation (hx : cell.x.isNaN = false) (hy : cell.y.isNaN = false)
    (p : Location) : (Slot.ofLocation cell p).coord = boundCell cell p.flat := by
  have number : Binary32.zero.isNaN = false := by decide
  rw [Slot.ofLocation, boundCell, Binary32.lt_eq_not_le number hx, Binary32.lt_eq_not_le number hy]
  cases cell.x.le .zero <;> cases cell.y.le .zero <;> rfl

theorem boundCell_mono (cell : Vec2 Binary32) {p q : Vec2 Binary32} (hp : p.IsFinite)
    (hq : q.IsFinite) (le : p.Le q) :
    (boundCell cell p).x ≤ (boundCell cell q).x ∧
      (boundCell cell p).y ≤ (boundCell cell q).y := by
  unfold boundCell
  split
  next positive =>
    rw [Bool.and_eq_true] at positive
    have quotientX := Binary32.div_le_div hp.1 hq.1 positive.1 le.1
    have quotientY := Binary32.div_le_div hp.2 hq.2 positive.2 le.2
    exact ⟨Binary32.toInt_mono (Binary32.floor_mono quotientX),
      Binary32.toInt_mono (Binary32.floor_mono quotientY)⟩
  next => exact ⟨Int.le_refl _, Int.le_refl _⟩

theorem contains_windowOf (hx : cell.x.isNaN = false) (hy : cell.y.isNaN = false)
    {ps : List Location} (finite : ∀ p ∈ ps, p.flat.IsFinite) {margin : Int}
    (hm : 0 ≤ margin) {p : Location} (hp : p ∈ ps) :
    (windowOf cell ps margin).contains (Slot.ofLocation cell p).coord = true := by
  obtain ⟨low, high, encloses⟩ := bounds_spec finite hp
  have first := boundCell_mono cell low (finite p hp) encloses.low
  have last := boundCell_mono cell (finite p hp) high encloses.high
  rw [Window.contains_iff, coord_ofLocation hx hy]
  simp only [windowOf, Coord.splat, Coord.one, Coord.sub_x, Coord.sub_y, Coord.add_x,
    Coord.add_y]
  omega

end Scene

end MarkerLattice
