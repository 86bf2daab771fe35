import Mathlib
import MarkerLattice.Proofs.Lattice.Scene

/-! Scenes up to the identifiers of their markers. Nothing that a pass looks at
depends on them and flattening renumbers them, while effects on different slots
commute only as far as the markers get other identifiers. -/
namespace MarkerLattice

namespace Marker

def eraseId (m : Marker) : Marker := { m with id := 0 }

@[simp] theorem name_eraseId (m : Marker) : m.eraseId.name = m.name := rfl
@[simp] theorem pose_eraseId (m : Marker) : m.eraseId.pose = m.pose := rfl
@[simp] theorem location_eraseId (m : Marker) : m.eraseId.location = m.location := rfl
@[simp] theorem eraseId_eraseId (m : Marker) : m.eraseId.eraseId = m.eraseId := rfl

@[simp] theorem isSame_eraseId (m n : Marker) : m.eraseId.isSame n.eraseId = m.isSame n := rfl

end Marker

namespace MarkerList

def eraseIds (l : MarkerList) : MarkerList := l.map Marker.eraseId

@[simp] theorem eraseIds_eraseIds (l : MarkerList) : l.eraseIds.eraseIds = l.eraseIds := by
  simp [eraseIds]

theorem any_isSame_eraseIds (l : MarkerList) (m : Marker) :
    (l.eraseIds.any fun n => n.isSame m.eraseId) = l.any fun n => n.isSame m := by
  simp [eraseIds, Function.comp_def]

theorem eraseIds_add (l : MarkerList) (m : Marker) :
    (l.add m).eraseIds = l.eraseIds.add m.eraseId := by
  unfold add
  rw [any_isSame_eraseIds]
  split
  · rfl
  · simp [eraseIds]

theorem eraseIds_remove (l : MarkerList) (name : String) :
    (l.remove name).eraseIds = l.eraseIds.remove name := by
  rw [eraseIds, eraseIds, remove, remove, List.filter_map]
  rfl

@[simp] theorem hasName_eraseIds (l : MarkerList) (name : String) :
    l.eraseIds.hasName name = l.hasName name := by
  rw [eraseIds, hasName, hasName, List.any_map]
  rfl

@[simp] theorem firstNamed?_eraseIds (l : MarkerList) (names : List String) :
    l.eraseIds.firstNamed? names = (l.firstNamed? names).map Marker.eraseId := by
  rw [eraseIds, firstNamed?, firstNamed?, List.find?_map]
  rfl

end MarkerList

def Quad.map {α β : Type} (f : α → β) (q : Quad α) : Quad β :=
  ⟨f q.ground, f q.edgeX, f q.edgeY, f q.corner⟩

theorem Quad.get_map {α β : Type} (f : α → β) (q : Quad α) (part : SubCell) :
    (q.map f).get part = f (q.get part) := by
  cases part <;> rfl

theorem SlotGrid.slot?_map {α β : Type} (f : α → β) (g : SlotGrid α) (slot : Slot) :
    slot? (Cells.map (Quad.map f) g) slot = (slot? g slot).map f := by
  simp [slot?, Function.comp_def, Quad.get_map]

namespace Scene

def eraseIds (s : Scene) : Scene :=
  { s with slots := Cells.map (Quad.map MarkerList.eraseIds) s.slots }

variable (s : Scene) (slot : Slot)

@[simp] theorem window_eraseIds : s.eraseIds.window = s.window := rfl
@[simp] theorem cellSize_eraseIds : s.eraseIds.cellSize = s.cellSize := rfl
@[simp] theorem nextId_eraseIds : s.eraseIds.nextId = s.nextId := rfl

@[simp] theorem markers_eraseIds : s.eraseIds.markers slot = (s.markers slot).eraseIds := by
  rw [markers, eraseIds, SlotGrid.slot?_map, markers]
  cases SlotGrid.slot? s.slots slot <;> rfl

@[simp] theorem contains_eraseIds : s.eraseIds.contains slot = s.contains slot := by
  funext name
  simp [contains]

@[simp] theorem emittedPose_eraseIds (levels : Levels) (stance : Stance) :
    s.eraseIds.emittedPose levels stance = s.emittedPose levels stance := by
  funext e
  simp only [emittedPose, locationOf, markers_eraseIds, cellSize_eraseIds,
    MarkerList.firstNamed?_eraseIds]
  cases (s.markers stance.slot).firstNamed? e.heightFrom <;>
    cases (s.markers stance.slot).firstNamed? e.rotationFrom <;> rfl

theorem renumber_eraseIds (ms : List Marker) :
    renumber (ms.map Marker.eraseId) = renumber ms := by
  apply List.ext_getElem?
  intro i
  simp only [renumber, List.getElem?_mapIdx, List.getElem?_map, Option.map_map]
  rfl

theorem listCell_eraseIds (q : Quad MarkerList) :
    listCell (q.map MarkerList.eraseIds) = (listCell q).map Marker.eraseId := by
  simp only [listCell, Quad.map, MarkerList.eraseIds, List.map_append]

theorem flatten_eraseIds : s.eraseIds.flatten = s.flatten := by
  have listed : s.eraseIds.slots.values.toList.flatMap listCell =
      (s.slots.values.toList.flatMap listCell).map Marker.eraseId := by
    simp only [eraseIds, Cells.map, Array.toList_map, List.flatMap_map, List.map_flatMap,
      listCell_eraseIds]
  rw [flatten, listed, renumber_eraseIds, flatten]

@[simp] theorem eraseIds_eraseIds : s.eraseIds.eraseIds = s.eraseIds := by
  apply ext_markers (s := s.eraseIds.eraseIds) (t := s.eraseIds) rfl rfl rfl
  intro slot
  rw [markers_eraseIds, markers_eraseIds, MarkerList.eraseIds_eraseIds]

theorem eraseIds_eq {s t : Scene} (cellSize : s.cellSize = t.cellSize)
    (window : s.window = t.window) (nextId : s.nextId = t.nextId)
    (markers : ∀ slot, (s.markers slot).eraseIds = (t.markers slot).eraseIds) :
    s.eraseIds = t.eraseIds := by
  apply ext_markers (s := s.eraseIds) (t := t.eraseIds) cellSize window nextId
  intro slot
  rw [markers_eraseIds, markers_eraseIds, markers]

end Scene

namespace Effect

def change (id : Int32) (pose : Emission → Pose Binary32) : Effect → MarkerList → MarkerList
  | .emit e => (·.add ⟨id, e.name, pose e⟩)
  | .remove name => (·.remove name)

/-- The identifiers that an effect uses up, inside and outside the window. -/
def used (inside : Bool) : Effect → Int32
  | .emit _ => if inside then 1 else 0
  | .remove _ => 0

theorem eraseIds_change (e : Effect) (id : Int32) (pose : Emission → Pose Binary32)
    (l : MarkerList) : (e.change id pose l).eraseIds = e.change 0 pose l.eraseIds := by
  cases e with
  | emit e => exact MarkerList.eraseIds_add l _
  | remove name => exact MarkerList.eraseIds_remove l name

end Effect

namespace Scene

variable (s : Scene) (levels : Levels) (stance stance' : Stance) (e e' : Effect)

theorem perform_eq : perform levels stance s e =
    { s.modifySlot stance.slot (e.change s.nextId (s.emittedPose levels stance)) with
      nextId := s.nextId + e.used (s.window.contains stance.slot.coord) } := by
  cases e with
  | emit e =>
    cases inside : s.window.contains stance.slot.coord with
    | true =>
      rw [perform, emit_of_contains inside]
      rfl
    | false =>
      rw [perform, emit_of_not_contains inside, modifySlot_of_not_contains inside]
      simp [Effect.used]
  | remove name =>
    rw [Effect.used, Int32.add_zero]
    rfl

theorem nextId_perform : (perform levels stance s e).nextId =
    s.nextId + e.used (s.window.contains stance.slot.coord) := by
  rw [perform_eq]

theorem markers_perform (t : Slot) : (perform levels stance s e).markers t =
    if t = stance.slot ∧ s.window.contains t.coord = true then
      e.change s.nextId (s.emittedPose levels stance) (s.markers t)
    else s.markers t := by
  rw [perform_eq]
  exact s.markers_modifySlot stance.slot t _

@[simp] theorem window_perform : (perform levels stance s e).window = s.window :=
  (s.agreesOff_perform levels stance e).window

@[simp] theorem cellSize_perform : (perform levels stance s e).cellSize = s.cellSize :=
  (s.agreesOff_perform levels stance e).cellSize

theorem emittedPose_perform (h : stance.slot ≠ stance'.slot) :
    (perform levels stance s e).emittedPose levels stance' = s.emittedPose levels stance' := by
  have own : (perform levels stance s e).markers stance'.slot = s.markers stance'.slot := by
    rw [markers_perform, if_neg fun same => h same.1.symm]
  funext e
  simp only [emittedPose, locationOf, own, cellSize_perform]

theorem eraseIds_perform : (perform levels stance s e).eraseIds =
    (perform levels stance s.eraseIds e).eraseIds := by
  apply eraseIds_eq
  · simp
  · simp
  · simp [nextId_perform]
  · intro t
    simp only [markers_perform, window_eraseIds, markers_eraseIds, emittedPose_eraseIds]
    split
    · rw [Effect.eraseIds_change, Effect.eraseIds_change, MarkerList.eraseIds_eraseIds]
    · rw [MarkerList.eraseIds_eraseIds]

/-- Effects on different slots commute up to identifiers. -/
theorem eraseIds_perform_comm (h : stance.slot ≠ stance'.slot) :
    (perform levels stance' (perform levels stance s e) e').eraseIds =
      (perform levels stance (perform levels stance' s e') e).eraseIds := by
  apply eraseIds_eq
  · simp
  · simp
  · simp only [nextId_perform, window_perform]
    rw [Int32.add_assoc, Int32.add_comm (e.used _), ← Int32.add_assoc]
  · intro t
    simp only [markers_perform, window_perform, emittedPose_perform s levels stance stance' e h,
      emittedPose_perform s levels stance' stance e' h.symm]
    by_cases first : t = stance.slot
    · have second : t ≠ stance'.slot := first ▸ h
      simp only [second, false_and, if_false]
      split
      · rw [Effect.eraseIds_change, Effect.eraseIds_change]
      · rfl
    · simp only [first, false_and, if_false]
      split
      · rw [Effect.eraseIds_change, Effect.eraseIds_change]
      · rfl

end Scene

end MarkerLattice
