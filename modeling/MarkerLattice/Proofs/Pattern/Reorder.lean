import Mathlib
import MarkerLattice.Proofs.Lattice.Window
import MarkerLattice.Proofs.Pattern.Orientation
import MarkerLattice.Proofs.Pattern.Turn

/-! Orientations that differ in the order of their rules only. They have the same
bounds, so their placements stand on the same coordinates, and they stay so under
turns. -/
namespace MarkerLattice

namespace Coord

theorem lower_comm (a b : Coord) : lower a b = lower b a := by
  simp only [lower, min_comm]

theorem lower_right_comm (a b c : Coord) : lower (lower a b) c = lower (lower a c) b := by
  simp only [lower, min_right_comm]

theorem upper_comm (a b : Coord) : upper a b = upper b a := by
  simp only [upper, max_comm]

theorem upper_right_comm (a b c : Coord) : upper (upper a b) c = upper (upper a c) b := by
  simp only [upper, max_right_comm]

end Coord

theorem Offset.toCoord_injective : Function.Injective Offset.toCoord := by
  rintro ⟨x, y⟩ ⟨x', y'⟩ h
  simp only [toCoord, Coord.mk.injEq, Int32.toInt_inj] at h
  rw [Offset.mk.injEq]
  exact h

namespace Orientation

def boundOf (pick : Coord → Coord → Coord) : List Coord → Coord
  | [] => .zero
  | c :: cs => cs.foldl pick c

theorem boundOf_perm {pick : Coord → Coord → Coord} (comm : ∀ a b, pick a b = pick b a)
    (right_comm : ∀ a b c, pick (pick a b) c = pick (pick a c) b) {cs cs' : List Coord}
    (h : cs.Perm cs') : boundOf pick cs = boundOf pick cs' := by
  induction h with
  | nil => rfl
  | cons c rest _ => exact rest.foldl_eq' (fun a _ b _ z => right_comm z a b) c
  | swap a b rest => exact congrArg (rest.foldl pick) (comm b a)
  | trans _ _ first second => exact first.trans second

theorem low_ofRules (rules : List PlacedRule) (angle : Binary32) (n : Int) :
    (ofRules rules angle n).low = boundOf Coord.lower (rules.map PlacedRule.coord) := by
  unfold ofRules
  split <;> simp_all [boundOf]

theorem high_ofRules (rules : List PlacedRule) (angle : Binary32) (n : Int) :
    (ofRules rules angle n).high = boundOf Coord.upper (rules.map PlacedRule.coord) := by
  unfold ofRules
  split <;> simp_all [boundOf]

@[simp] theorem angle_ofRules (rules : List PlacedRule) (angle : Binary32) (n : Int) :
    (ofRules rules angle n).angle = angle := by
  unfold ofRules
  split <;> rfl

@[simp] theorem quarterTurns_ofRules (rules : List PlacedRule) (angle : Binary32) (n : Int) :
    (ofRules rules angle n).quarterTurns = n := by
  unfold ofRules
  split <;> rfl

structure Reordered (o o' : Orientation) : Prop where
  rules : o.rules.Perm o'.rules
  low : o.low = o'.low
  high : o.high = o'.high
  angle : o.angle = o'.angle
  quarterTurns : o.quarterTurns = o'.quarterTurns

theorem reordered_ofRules {rules rules' : List PlacedRule} (h : rules.Perm rules')
    (angle : Binary32) (n : Int) :
    Reordered (ofRules rules angle n) (ofRules rules' angle n) where
  rules := by simpa using h
  low := by
    rw [low_ofRules, low_ofRules]
    exact boundOf_perm Coord.lower_comm Coord.lower_right_comm (h.map _)
  high := by
    rw [high_ofRules, high_ofRules]
    exact boundOf_perm Coord.upper_comm Coord.upper_right_comm (h.map _)
  angle := by simp
  quarterTurns := by simp

theorem Reordered.turned {o o' : Orientation} (h : o.Reordered o') :
    o.turned.Reordered o'.turned := by
  unfold Orientation.turned
  rw [h.angle, h.quarterTurns]
  exact reordered_ofRules (h.rules.map _) _ _

def Distinct (o : Orientation) : Prop := (o.rules.map PlacedRule.place).Nodup

def Within (n : ℕ) (o : Orientation) : Prop := ∀ r ∈ o.rules, r.Within n

theorem Within.mono {o : Orientation} {m n : ℕ} (h : o.Within m) (le : m ≤ n) : o.Within n :=
  fun r hr => ⟨(h r hr).1.trans le, (h r hr).2.trans le⟩

theorem distinct_turned {o : Orientation} (h : o.Distinct) (within : o.Within (2 ^ 23 - 2)) :
    o.turned.Distinct := by
  have places : o.turned.rules.map PlacedRule.place =
      (o.rules.map PlacedRule.place).map Slot.turned := by
    simp only [rules_turned, List.map_map]
    exact List.map_congr_left fun r hr => PlacedRule.place_turned (within r hr)
  rw [Distinct, places]
  exact h.map Slot.turned_injective

theorem within_turned {o : Orientation} {n : ℕ} (h : o.Within n) (room : n ≤ 2 ^ 23 - 2) :
    o.turned.Within (n + 1) := by
  unfold Within
  rw [rules_turned, List.forall_mem_map]
  exact fun r hr => PlacedRule.within_turned (h r hr) room

theorem distinct_ofPattern {pattern : Pattern}
    (h : (pattern.rules.map fun r => (r.offset, r.part)).Nodup) :
    (ofPattern pattern).Distinct := by
  have places : (ofPattern pattern).rules.map PlacedRule.place =
      (pattern.rules.map fun r => (r.offset, r.part)).map fun k => ⟨k.1.toCoord, k.2⟩ := by
    simp only [ofPattern, rules_ofRules, List.map_map]
    rfl
  rw [Distinct, places]
  refine h.map fun k k' same => ?_
  simp only [Slot.mk.injEq] at same
  exact Prod.ext (Offset.toCoord_injective same.1) same.2

/-- The turns of reordered orientations are reordered, and rules on distinct slots
stay on distinct slots. Each turn takes the rules at most one cell farther off. -/
theorem forall₂_turns {n : ℕ} (turnings : ℕ) {o o' : Orientation} (h : o.Reordered o')
    (distinct : o.Distinct) (within : o.Within n) (room : n + turnings ≤ 2 ^ 23 - 2) :
    List.Forall₂ (fun q q' => q.Reordered q' ∧ q.Distinct) (turns turnings o)
      (turns turnings o') := by
  induction turnings generalizing n o o' with
  | zero => exact .cons ⟨h, distinct⟩ .nil
  | succ k ih =>
    have near : o.Within (2 ^ 23 - 2) := within.mono (by omega)
    refine .cons ⟨h, distinct⟩ ?_
    exact ih h.turned (distinct_turned distinct near)
      (within_turned within (by omega)) (by omega)

end Orientation

namespace Placement

structure Reordered (p p' : Placement) : Prop where
  base : p.base = p'.base
  orientation : p.orientation.Reordered p'.orientation
  distinct : p.orientation.Distinct

namespace Reordered

variable {p p' : Placement}

theorem slot (h : p.Reordered p') : p.slot = p'.slot := by
  funext r
  rw [Placement.slot, Placement.slot, h.base]

theorem slot_ne (h : p.Reordered p') {r r' : PlacedRule} (hr : r ∈ p.orientation.rules)
    (hr' : r' ∈ p.orientation.rules) (ne : r ≠ r') : p.slot r ≠ p.slot r' := by
  intro same
  apply ne
  apply List.inj_on_of_nodup_map h.distinct hr hr'
  simp only [Placement.slot, Slot.mk.injEq] at same
  rw [PlacedRule.place, PlacedRule.place, Slot.mk.injEq]
  exact ⟨Coord.add_right_injective _ same.1, same.2⟩

end Reordered

theorem forall₂_around {o o' : Orientation} (h : o.Reordered o') (distinct : o.Distinct)
    (w : Window) : List.Forall₂ Reordered (around o w) (around o' w) := by
  have extent : o.extent = o'.extent := by
    rw [Orientation.extent, Orientation.extent, h.low, h.high]
  have bases : around o' w = (around o w).map fun p => ⟨p.base, o'⟩ := by
    unfold around between
    rw [h.rules.isEmpty_eq, extent]
    split
    · rfl
    · simp only [List.map_flatMap, List.map_map]
      rfl
  rw [bases, List.forall₂_map_right_iff, List.forall₂_same]
  intro p hp
  rw [← orientation_of_mem_around hp] at h distinct
  exact ⟨rfl, h, distinct⟩

end Placement

end MarkerLattice
