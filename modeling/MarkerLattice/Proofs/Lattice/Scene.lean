import Mathlib
import MarkerLattice.Emit
import MarkerLattice.Proofs.Lattice.Cells

/-! What writing to one slot of a scene leaves alone, and the frame of the
effects of a rule: they reach the slot that the rule stands on. -/
namespace MarkerLattice.Scene

variable (s : Scene) (slot t : Slot)

@[simp] theorem window_modifySlot (f : MarkerList → MarkerList) :
    (s.modifySlot slot f).window = s.window :=
  SlotGrid.window_modifySlot s.slots slot f

@[simp] theorem cellSize_modifySlot (f : MarkerList → MarkerList) :
    (s.modifySlot slot f).cellSize = s.cellSize := rfl

@[simp] theorem nextId_modifySlot (f : MarkerList → MarkerList) :
    (s.modifySlot slot f).nextId = s.nextId := rfl

@[simp] theorem isSome_slot?_slots :
    (s.slots.slot? slot).isSome = s.window.contains slot.coord :=
  SlotGrid.isSome_slot? s.slots slot

theorem slot?_slots_of_contains {s : Scene} {slot : Slot}
    (h : s.window.contains slot.coord = true) :
    s.slots.slot? slot = some (s.markers slot) := by
  obtain ⟨l, hl⟩ := Option.isSome_iff_exists.mp ((s.isSome_slot?_slots slot).trans h)
  simp [markers, hl]

theorem markers_of_not_contains {s : Scene} {slot : Slot}
    (h : s.window.contains slot.coord = false) : s.markers slot = [] := by
  rw [markers, SlotGrid.slot?_eq_none_of_not_contains h]
  rfl

theorem contains_of_mem_markers {s : Scene} {slot : Slot} {m : Marker}
    (h : m ∈ s.markers slot) : s.window.contains slot.coord = true := by
  cases inside : s.window.contains slot.coord with
  | true => rfl
  | false => simp [markers_of_not_contains inside] at h

theorem ext_markers {s t : Scene} (cellSize : s.cellSize = t.cellSize)
    (window : s.window = t.window) (nextId : s.nextId = t.nextId)
    (markers : ∀ slot, s.markers slot = t.markers slot) : s = t := by
  have slots : s.slots = t.slots := by
    apply SlotGrid.ext_slot? window
    intro slot
    cases inside : s.window.contains slot.coord with
    | true =>
      rw [slot?_slots_of_contains inside, slot?_slots_of_contains (window ▸ inside),
        markers]
    | false =>
      have outside : t.window.contains slot.coord = false := window ▸ inside
      rw [SlotGrid.slot?_eq_none_of_not_contains inside,
        SlotGrid.slot?_eq_none_of_not_contains outside]
  cases s
  cases t
  simp_all

theorem markers_modifySlot (f : MarkerList → MarkerList) :
    (s.modifySlot slot f).markers t =
      if t = slot ∧ s.window.contains t.coord = true then f (s.markers t)
      else s.markers t := by
  rw [markers, modifySlot, SlotGrid.slot?_modifySlot]
  by_cases ht : t = slot
  · cases hw : s.window.contains t.coord with
    | false => simp [markers, SlotGrid.slot?_eq_none_of_not_contains hw]
    | true => simp [ht, slot?_slots_of_contains (ht ▸ hw)]
  · simp [ht, markers]

theorem modifySlot_of_not_contains {s : Scene} {slot : Slot}
    (h : s.window.contains slot.coord = false) (f : MarkerList → MarkerList) :
    s.modifySlot slot f = s := by
  have : SlotGrid.modifySlot s.slots slot f = s.slots := by
    apply SlotGrid.ext_slot? (SlotGrid.window_modifySlot _ _ _)
    intro t
    rw [SlotGrid.slot?_modifySlot]
    split
    next ht =>
      subst ht
      rw [SlotGrid.slot?_eq_none_of_not_contains h]
      rfl
    next => rfl
  rw [modifySlot, this]

/-- `t` is `s` but for the markers of some slots and the identifiers used up. -/
structure AgreesOff (touched : Slot → Prop) (s t : Scene) : Prop where
  cellSize : t.cellSize = s.cellSize
  window : t.window = s.window
  markers : ∀ slot, ¬ touched slot → t.markers slot = s.markers slot

namespace AgreesOff

variable {touched more : Slot → Prop} {s t u : Scene}

theorem refl (touched : Slot → Prop) (s : Scene) : AgreesOff touched s s :=
  ⟨rfl, rfl, fun _ _ => rfl⟩

theorem trans (hst : AgreesOff touched s t) (htu : AgreesOff touched t u) :
    AgreesOff touched s u where
  cellSize := htu.cellSize.trans hst.cellSize
  window := htu.window.trans hst.window
  markers := fun slot h => (htu.markers slot h).trans (hst.markers slot h)

theorem mono (h : AgreesOff touched s t) (le : ∀ slot, touched slot → more slot) :
    AgreesOff more s t :=
  ⟨h.cellSize, h.window, fun slot hn => h.markers slot fun ht => hn (le slot ht)⟩

end AgreesOff

/-- The slots that a rule standing on `slot` can write to: its own, if it is in
the window. -/
def Reach (w : Window) (slot t : Slot) : Prop := t = slot ∧ w.contains t.coord = true

theorem agreesOff_modifySlot (f : MarkerList → MarkerList) :
    AgreesOff (Reach s.window slot) s (s.modifySlot slot f) where
  cellSize := rfl
  window := s.window_modifySlot slot f
  markers := fun t h => by
    rw [markers_modifySlot]
    exact if_neg h

theorem emit_of_contains {s : Scene} {stance : Stance}
    (h : s.window.contains stance.slot.coord = true) (levels : Levels) (e : Emission) :
    s.emit levels stance e =
      { s.modifySlot stance.slot
          (·.add ⟨s.nextId, e.name, s.emittedPose levels stance e⟩) with
        nextId := s.nextId + 1 } := by
  rw [emit, hasCell, if_pos h]
  rfl

theorem emit_of_not_contains {s : Scene} {stance : Stance}
    (h : s.window.contains stance.slot.coord = false) (levels : Levels) (e : Emission) :
    s.emit levels stance e = s := by
  rw [emit, hasCell, h]
  rfl

theorem agreesOff_perform (levels : Levels) (stance : Stance) (e : Effect) :
    AgreesOff (Reach s.window stance.slot) s (perform levels stance s e) := by
  cases e with
  | emit e =>
    cases hw : s.window.contains stance.slot.coord with
    | true =>
      rw [perform, emit_of_contains hw]
      have write := s.agreesOff_modifySlot stance.slot
        (·.add ⟨s.nextId, e.name, s.emittedPose levels stance e⟩)
      exact ⟨write.cellSize, write.window, write.markers⟩
    | false =>
      rw [perform, emit_of_not_contains hw]
      exact .refl _ s
  | remove name => exact s.agreesOff_modifySlot stance.slot _

theorem agreesOff_performAll (levels : Levels) (stance : Stance) (effects : List Effect) :
    AgreesOff (Reach s.window stance.slot) s (s.performAll levels stance effects) := by
  induction effects generalizing s with
  | nil => exact .refl _ s
  | cons e rest ih =>
    have head := s.agreesOff_perform levels stance e
    have tail := ih (perform levels stance s e)
    rw [head.window] at tail
    exact head.trans tail

end MarkerLattice.Scene
