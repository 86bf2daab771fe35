import Mathlib
import MarkerLattice.Proofs.Lattice.Names
import MarkerLattice.Proofs.Pass.Placement
import MarkerLattice.Proofs.Pass.Sight
import MarkerLattice.Proofs.Pattern.Reorder

/-! A turned placement does on a turned board what the placement does. The base turns as
a tile does while edges and corners turn about pivots of their own, and the slots still
come out as the turns of the slots. -/
namespace MarkerLattice

namespace Placement

def turned (p : Placement) : Placement :=
  ⟨⟨-p.base.y, p.base.x⟩, p.orientation.turned⟩

@[simp] theorem rules_turned (p : Placement) :
    p.turned.orientation.rules = p.orientation.rules.map PlacedRule.turned :=
  Orientation.rules_turned _

theorem slot_turned (p : Placement) {r : PlacedRule} (h : r.Within (2 ^ 23 - 2)) :
    p.turned.slot r.turned = (p.slot r).turned := by
  have coord : r.turned.coord = r.place.turned.coord :=
    congrArg Slot.coord (PlacedRule.place_turned h)
  have part : r.turned.part = r.part.turned := rfl
  rw [slot, coord, part]
  cases hp : r.part <;>
    simp only [turned, slot, Slot.turned, PlacedRule.place, hp, Slot.mk.injEq, and_true] <;>
    apply Coord.ext <;> simp only [Coord.add_x, Coord.add_y] <;> omega

end Placement

/-- A slot of `b` and its turn on `b'` read alike, are both taken or both free, and both
lie inside or both outside. -/
structure Board.Mirrors {α : Type} (read : Scene → Slot → α) (b b' : Board) (slot : Slot) :
    Prop where
  inside : b'.scene.window.contains slot.turned.coord = b.scene.window.contains slot.coord
  room : (Cells.window b'.occupancy).contains slot.turned.coord =
    (Cells.window b.occupancy).contains slot.coord
  read : read b'.scene slot.turned = read b.scene slot
  taken : b'.occupancy.isOccupied slot.turned = b.occupancy.isOccupied slot

theorem Board.Mirrors.names {b b' : Board} {slot : Slot} (h : b.Mirrors Scene.heights b' slot) :
    b.Mirrors Scene.contains b' slot where
  inside := h.inside
  room := h.room
  read := by
    funext name
    rw [Scene.contains_eq_heights, Scene.contains_eq_heights, h.read]
  taken := h.taken

namespace PassRules

variable (rules : PassRules) (levels : Levels) {p : Placement} {b b' : Board}

/-- Rules keep the names and the taken slots of boards that are turns of each other, on
every slot that is one already. -/
theorem mirrors_runRule {r : PlacedRule} (near : r.Within (2 ^ 23 - 2)) {slot : Slot}
    (h : b.Mirrors Scene.contains b' slot) :
    (rules.runRule p b r).Mirrors Scene.contains
      ({ rules with levels }.runRule p.turned b' r.turned) slot := by
  -- The turned rule writes to the turn of a slot exactly when the rule writes to the slot.
  have own : slot.turned = p.turned.slot r.turned ↔ slot = p.slot r := by
    rw [p.slot_turned near]
    exact Slot.turned_injective.eq_iff
  refine ⟨?_, ?_, ?_, ?_⟩
  · rw [window_scene_runRule, window_scene_runRule]
    exact h.inside
  · rw [window_occupancy_runRule, window_occupancy_runRule]
    exact h.room
  · have effects : r.turned.script = r.script := rfl
    simp only [runRule, effects, Scene.contains_performAll, Placement.stance, own, h.inside,
      h.read]
  · have inserts : r.turned.inserts = r.inserts := rfl
    rw [Bool.eq_iff_iff, isOccupied_runRule, isOccupied_runRule, h.taken, h.room, inserts,
      eq_comm (b := slot.turned), own, eq_comm (b := slot)]

theorem sights_turned (near : p.orientation.Within (2 ^ 23 - 2))
    (mirror : ∀ r ∈ p.orientation.rules, b.Mirrors Scene.heights b' (p.slot r)) :
    p.turned.sights b' = p.sights b := by
  rw [Placement.sights, Placement.sights, Placement.rules_turned, List.map_map]
  apply List.map_congr_left
  intro r hr
  have slot := p.slot_turned (near r hr)
  rw [Function.comp_apply, slot, (mirror r hr).read, (mirror r hr).taken]
  rfl

/-- A turned placement, tried on a board that is turned on its slots, has the outcome of
the placement, whatever the levels are, and leaves the same names and the same slots
taken. -/
theorem tryPlacement_turned (near : p.orientation.Within (2 ^ 20))
    (mirror : ∀ r ∈ p.orientation.rules, b.Mirrors Scene.heights b' (p.slot r)) :
    ({ rules with levels }.tryPlacement b' p.turned).1 = (rules.tryPlacement b p).1 ∧
      ∀ r ∈ p.orientation.rules, (rules.tryPlacement b p).2.Mirrors Scene.contains
        ({ rules with levels }.tryPlacement b' p.turned).2 (p.slot r) := by
  have exact : p.orientation.Within (2 ^ 23 - 2) := near.mono (by decide)
  have outcome := rules.outcome_congr (sights_turned exact mirror) levels
  refine ⟨outcome, ?_⟩
  rw [snd_tryPlacement, snd_tryPlacement, outcome]
  split
  · rw [Placement.rules_turned, List.foldl_map]
    apply List.foldl_rel (r := fun (c c' : Board) => ∀ q ∈ p.orientation.rules,
      c.Mirrors Scene.contains c' (p.slot q))
    · exact fun q hq => (mirror q hq).names
    · exact fun r hr c c' h q hq => rules.mirrors_runRule levels (exact r hr) (h q hq)
  · exact fun q hq => (mirror q hq).names

def wallAt (location : Location) : Board :=
  let scene := Scene.ofMarkers ⟨.one, .one, .one⟩ [⟨0, "Wall", .ofPosition location⟩] 0
  ⟨scene, .none scene.window⟩

def wallBelow : Board := wallAt ⟨.half, .zero, .zero⟩

def wallBeside : Board := wallAt ⟨.one, .half, .zero⟩

def edgeRemoval : Placement :=
  ⟨.zero, .ofPattern ⟨[⟨⟨0, 0⟩, .edgeX, removing "Wall", true⟩]⟩⟩

theorem tryPlacement_turned_edge :
    (exclusive.tryPlacement wallBelow edgeRemoval).1 = .executed ∧
      (exclusive.tryPlacement wallBeside edgeRemoval.turned).1 = .executed ∧
      (exclusive.tryPlacement wallBelow edgeRemoval).2.Mirrors Scene.contains
        (exclusive.tryPlacement wallBeside edgeRemoval.turned).2 ⟨.zero, .edgeX⟩ ∧
      (⟨.zero, .edgeX⟩ : Slot).turned = ⟨⟨1, 0⟩, .edgeY⟩ ∧
      wallBeside.scene.contains ⟨⟨1, 0⟩, .edgeY⟩ "Wall" = true := by
  have near : edgeRemoval.orientation.Within (2 ^ 20) := by
    unfold Orientation.Within PlacedRule.Within
    decide +kernel
  have mirror : ∀ r ∈ edgeRemoval.orientation.rules,
      wallBelow.Mirrors Scene.heights wallBeside (edgeRemoval.slot r) := by
    intro r hr
    obtain rfl := List.mem_singleton.mp hr
    exact ⟨by decide +kernel, by decide +kernel, by decide +kernel, by decide +kernel⟩
  have free : overlapsAt wallBelow edgeRemoval = false := by decide +kernel
  have hold : conditionsHold wallBelow edgeRemoval = true := by
    simp [conditionsHold, edgeRemoval, Orientation.ofPattern, Orientation.ofRules,
      PlacedRule.ofRule, selection_removing_wall, Condition.holds]
  have run : (exclusive.tryPlacement wallBelow edgeRemoval).1 = .executed :=
    executed_of_checks (.inr free) (.inl rfl) hold
  obtain ⟨outcome, after⟩ := tryPlacement_turned exclusive exclusive.levels near mirror
  exact ⟨run, outcome.trans run, after _ (List.mem_singleton.mpr rfl), by decide +kernel,
    by decide +kernel⟩

end PassRules

end MarkerLattice
