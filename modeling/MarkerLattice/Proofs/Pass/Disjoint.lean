import Mathlib
import MarkerLattice.Proofs.Pass.Reorder
import MarkerLattice.Proofs.Pass.Sight
import MarkerLattice.Proofs.Pass.Slots

/-! Placements that share no slot of the board. Neither sees what the other does, and each
does the same to its own slots in either order, but for the identifiers that are handed out
in between. -/
namespace MarkerLattice

def Deed.Removes (deed : Deed) (slot : Slot) (name : String) : Prop :=
  deed.stance.slot = slot ∧ deed.effect = .remove name

instance (deed : Deed) (slot : Slot) (name : String) : Decidable (deed.Removes slot name) :=
  inferInstanceAs (Decidable (_ ∧ _))

namespace MarkerList

/-- Two lists that go on behind `old` with markers that differ in their identifiers at most. -/
def AlikeBehind (old l l' : MarkerList) : Prop :=
  ∃ fresh fresh' : MarkerList, l = old ++ fresh ∧ l' = old ++ fresh' ∧
    fresh.eraseIds = fresh'.eraseIds

namespace AlikeBehind

variable {old l l' : MarkerList}

theorem refl (l : MarkerList) : AlikeBehind l l l :=
  ⟨[], [], (List.append_nil l).symm, (List.append_nil l).symm, rfl⟩

theorem symm (h : AlikeBehind old l l') : AlikeBehind old l' l := by
  obtain ⟨fresh, fresh', rfl, rfl, alike⟩ := h
  exact ⟨fresh', fresh, rfl, rfl, alike.symm⟩

theorem eraseIds (h : AlikeBehind old l l') : l.eraseIds = l'.eraseIds := by
  obtain ⟨fresh, fresh', rfl, rfl, alike⟩ := h
  rw [MarkerList.eraseIds, List.map_append, MarkerList.eraseIds, List.map_append]
  exact congrArg _ alike

theorem add (h : AlikeBehind old l l') {m m' : Marker} (same : m.eraseId = m'.eraseId) :
    AlikeBehind old (l.add m) (l'.add m') := by
  have present : (l.any fun n => n.isSame m) = l'.any fun n => n.isSame m' := by
    rw [← any_isSame_eraseIds, ← any_isSame_eraseIds l', h.eraseIds, same]
  unfold MarkerList.add
  rw [← present]
  split
  · exact h
  · obtain ⟨fresh, fresh', rfl, rfl, alike⟩ := h
    refine ⟨fresh ++ [m], fresh' ++ [m'], List.append_assoc .., List.append_assoc .., ?_⟩
    rw [MarkerList.eraseIds, List.map_append, MarkerList.eraseIds, List.map_append]
    exact congrArg₂ _ alike (congrArg (fun m => [m]) same)

theorem remove (h : AlikeBehind old l l') (name : String) :
    AlikeBehind (old.remove name) (l.remove name) (l'.remove name) := by
  obtain ⟨fresh, fresh', rfl, rfl, alike⟩ := h
  refine ⟨fresh.remove name, fresh'.remove name, List.filter_append .., List.filter_append .., ?_⟩
  rw [eraseIds_remove, eraseIds_remove, alike]

end AlikeBehind

def spared (l : MarkerList) (deeds : List Deed) (slot : Slot) : MarkerList :=
  l.filter fun m => ¬ ∃ deed ∈ deeds, deed.Removes slot m.name

theorem spared_append (l : MarkerList) (deeds deeds' : List Deed) (slot : Slot) :
    l.spared (deeds ++ deeds') slot = (l.spared deeds slot).spared deeds' slot := by
  simp only [spared, List.filter_filter, List.mem_append, or_and_right, exists_or, not_or,
    Bool.decide_and, Bool.and_comm]

theorem spared_append_comm (l : MarkerList) (deeds deeds' : List Deed) (slot : Slot) :
    l.spared (deeds ++ deeds') slot = l.spared (deeds' ++ deeds) slot := by
  have member (deed : Deed) : deed ∈ deeds ++ deeds' ↔ deed ∈ deeds' ++ deeds :=
    List.perm_append_comm.mem_iff
  simp only [spared, member]

theorem spared_eq_self {deeds : List Deed} {slot : Slot} (l : MarkerList)
    (h : ∀ deed ∈ deeds, deed.stance.slot = slot → l = []) : l.spared deeds slot = l := by
  rw [spared, List.filter_eq_self]
  intro m hm
  rw [decide_eq_true_eq]
  rintro ⟨deed, hd, own, -⟩
  simp [h deed hd own] at hm

end MarkerList

namespace Scene

variable {s t : Scene} {levels : Levels} {slot : Slot}

theorem alike_change {old l l' : MarkerList} (h : MarkerList.AlikeBehind old l l') (deed : Deed)
    (own : deed.stance.slot = slot) (id id' : Int32) (pose : Emission → Pose Binary32) :
    MarkerList.AlikeBehind (old.spared [deed] slot) (deed.effect.change id pose l)
      (deed.effect.change id' pose l') := by
  obtain ⟨stance, effect⟩ := deed
  cases effect with
  | emit e =>
    have all : old.spared [⟨stance, .emit e⟩] slot = old := by
      simp [MarkerList.spared, Deed.Removes]
    rw [all]
    exact h.add rfl
  | remove name =>
    have here : stance.slot = slot := own
    have rest : old.spared [⟨stance, .remove name⟩] slot = old.remove name := by
      simp [MarkerList.spared, Deed.Removes, MarkerList.remove, here, eq_comm (a := name)]
    rw [rest]
    exact h.remove name

theorem emittedPose_congr {stance : Stance} (cellSize : t.cellSize = s.cellSize)
    (h : (s.markers stance.slot).eraseIds = (t.markers stance.slot).eraseIds) :
    t.emittedPose levels stance = s.emittedPose levels stance := by
  rw [← emittedPose_eraseIds, ← s.emittedPose_eraseIds]
  funext e
  simp only [emittedPose, locationOf, markers_eraseIds, cellSize_eraseIds, cellSize, h]

theorem alike_after (cellSize : t.cellSize = s.cellSize) (window : t.window = s.window)
    (same : t.markers slot = s.markers slot) (deeds : List Deed) :
    MarkerList.AlikeBehind ((s.markers slot).spared deeds slot)
      ((s.after levels deeds).markers slot) ((t.after levels deeds).markers slot) := by
  induction deeds using List.reverseRecOn with
  | nil =>
    rw [MarkerList.spared_eq_self _ (by simp)]
    exact same ▸ .refl _
  | append_singleton deeds deed ih =>
    rw [after_concat, after_concat, markers_perform, markers_perform, window_after, window_after,
      window, MarkerList.spared_append]
    split
    next own =>
      obtain ⟨rfl, -⟩ := own
      have pose : (t.after levels deeds).emittedPose levels deed.stance =
          (s.after levels deeds).emittedPose levels deed.stance :=
        emittedPose_congr (by simp [cellSize]) ih.eraseIds
      rw [pose]
      exact alike_change ih deed rfl _ _ _
    next away =>
      have outside (h : deed.stance.slot = slot) : s.markers slot = [] := by
        apply markers_of_not_contains
        simpa [h] using away
      rw [MarkerList.spared_eq_self _ fun other hother own => ?_]
      · exact ih
      · obtain rfl := List.mem_singleton.mp hother
        rw [outside own]
        rfl

theorem markers_after_of_quiet {deeds : List Deed}
    (quiet : ∀ deed ∈ deeds, deed.stance.slot = slot → s.window.contains slot.coord = false) :
    (s.after levels deeds).markers slot = s.markers slot := by
  induction deeds using List.reverseRecOn with
  | nil => rfl
  | append_singleton deeds deed ih =>
    rw [after_concat, markers_perform, window_after,
      ih fun other hother => quiet other (List.mem_append_left _ hother), if_neg]
    rintro ⟨own, inside⟩
    simp [quiet deed (by simp) own.symm] at inside

/-- On a slot that the second deeds do not reach, they make no difference behind the first
and no more than one of identifiers before them. -/
theorem alike_after_swap {deeds deeds' : List Deed}
    (quiet : ∀ deed ∈ deeds', deed.stance.slot = slot → s.window.contains slot.coord = false) :
    MarkerList.AlikeBehind ((s.markers slot).spared (deeds ++ deeds') slot)
      (((s.after levels deeds).after levels deeds').markers slot)
      (((s.after levels deeds').after levels deeds).markers slot) := by
  have first : ((s.after levels deeds).after levels deeds').markers slot =
      (s.after levels deeds).markers slot :=
    markers_after_of_quiet (by simpa using quiet)
  have spared : (s.markers slot).spared (deeds ++ deeds') slot =
      (s.markers slot).spared deeds slot := by
    rw [MarkerList.spared_append]
    refine MarkerList.spared_eq_self _ fun deed hd own => ?_
    rw [markers_of_not_contains (quiet deed hd own)]
    rfl
  rw [first, spared]
  exact alike_after (by simp) (by simp) (markers_after_of_quiet quiet) deeds

theorem nextId_after (deeds : List Deed) : (s.after levels deeds).nextId = deeds.foldl
    (fun n deed => n + deed.effect.used (s.window.contains deed.stance.slot.coord)) s.nextId := by
  induction deeds using List.reverseRecOn with
  | nil => rfl
  | append_singleton deeds deed ih =>
    rw [after_concat, nextId_perform, window_after, ih, List.foldl_append]
    rfl

theorem nextId_after_swap (deeds deeds' : List Deed) :
    ((s.after levels deeds).after levels deeds').nextId =
      ((s.after levels deeds').after levels deeds).nextId := by
  simp only [nextId_after, window_after]
  apply foldl_comm_foldl
  intro n deed _ deed' _
  rw [Int32.add_assoc, Int32.add_comm (deed.effect.used _), ← Int32.add_assoc]

end Scene

namespace Placement

variable (p : Placement) (b : Board)

/-- The slots that the rules of the placement stand on and the board has. -/
def touched : Set Slot :=
  { slot | (b.scene.window.contains slot.coord = true ∨
      (Cells.window b.occupancy).contains slot.coord = true) ∧
    ∃ r ∈ p.orientation.rules, p.slot r = slot }

def deeds : List Deed :=
  p.orientation.rules.flatMap fun r => r.script.effects.map fun e => ⟨p.stance r, e⟩

def inserted : List Slot :=
  (p.orientation.rules.filter PlacedRule.inserts).map p.slot

variable {p b} {p' : Placement}

theorem disjoint_touched (h : ∀ r ∈ p.orientation.rules, ∀ r' ∈ p'.orientation.rules,
      p.slot r = p'.slot r' → b.scene.window.contains (p.slot r).coord = false ∧
        (Cells.window b.occupancy).contains (p.slot r).coord = false) :
    Disjoint (p.touched b) (p'.touched b) := by
  rw [Set.disjoint_left]
  rintro _ ⟨inside, r, hr, rfl⟩ ⟨-, r', hr', same⟩
  obtain ⟨noScene, noOccupancy⟩ := h r hr r' hr' same.symm
  rw [noScene, noOccupancy] at inside
  simp at inside

theorem slot_of_mem_deeds {deed : Deed} (h : deed ∈ p.deeds) :
    ∃ r ∈ p.orientation.rules, p.slot r = deed.stance.slot := by
  obtain ⟨r, hr, e, -, rfl⟩ := by simpa [deeds] using h
  exact ⟨r, hr, rfl⟩

end Placement

namespace PassRules

variable (rules : PassRules) (b : Board) (p p' : Placement)

def deeds : List Deed :=
  if (rules.tryPlacement b p).1 = .executed then p.deeds else []

def taken : List Slot :=
  if (rules.tryPlacement b p).1 = .executed then p.inserted else []

def tryBoth : Board :=
  (rules.tryPlacement (rules.tryPlacement b p).2 p').2

theorem scene_tryPlacement :
    (rules.tryPlacement b p).2.scene = b.scene.after rules.levels (rules.deeds b p) := by
  rw [snd_tryPlacement, deeds]
  split
  · exact rules.scene_foldl_runRule p b _
  · rfl

@[simp] theorem window_tryPlacement :
    (rules.tryPlacement b p).2.scene.window = b.scene.window := by
  rw [scene_tryPlacement, Scene.window_after]

@[simp] theorem cellSize_tryPlacement :
    (rules.tryPlacement b p).2.scene.cellSize = b.scene.cellSize := by
  rw [scene_tryPlacement, Scene.cellSize_after]

theorem occupancy_tryPlacement :
    (rules.tryPlacement b p).2.occupancy = (rules.taken b p).foldl Occupancy.mark b.occupancy := by
  have run : (p.orientation.rules.foldl (rules.runRule p) b).occupancy =
      p.inserted.foldl Occupancy.mark b.occupancy := by
    rw [Placement.inserted, List.foldl_map, List.foldl_filter]
    exact (List.foldl_hom Board.occupancy fun _ _ => rfl).symm
  rw [snd_tryPlacement, taken]
  split
  · exact run
  · rfl

variable {rules b p p'} {slot : Slot}

theorem deeds_quiet (h : slot ∉ p.touched b) :
    ∀ deed ∈ rules.deeds b p, deed.stance.slot = slot →
      b.scene.window.contains slot.coord = false := by
  intro deed hd own
  rw [deeds] at hd
  split at hd
  · obtain ⟨r, hr, stands⟩ := Placement.slot_of_mem_deeds hd
    exact Bool.eq_false_iff.mpr fun inside => h ⟨.inl inside, r, hr, stands.trans own⟩
  · simp at hd

theorem markers_tryPlacement (h : slot ∉ p.touched b) :
    (rules.tryPlacement b p).2.scene.markers slot = b.scene.markers slot := by
  rw [scene_tryPlacement]
  exact Scene.markers_after_of_quiet (deeds_quiet h)

theorem isOccupied_tryPlacement (h : slot ∉ p.touched b) :
    (rules.tryPlacement b p).2.occupancy.isOccupied slot = b.occupancy.isOccupied slot := by
  rw [snd_tryPlacement]
  split
  · rw [Bool.eq_iff_iff, isOccupied_foldl_runRule]
    exact or_iff_left fun ⟨inside, r, hr, _, stands⟩ => h ⟨.inr inside, r, hr, stands⟩
  · rfl

theorem slot_notMem_touched (apart : Disjoint (p.touched b) (p'.touched b)) {r : PlacedRule}
    (hr : r ∈ p'.orientation.rules) : p'.slot r ∉ p.touched b := by
  intro touched
  exact Set.disjoint_left.mp apart touched ⟨touched.1, r, hr, rfl⟩

theorem outcome_swap (apart : Disjoint (p.touched b) (p'.touched b)) :
    (rules.tryPlacement (rules.tryPlacement b p).2 p').1 = (rules.tryPlacement b p').1 := by
  have sights : p'.sights (rules.tryPlacement b p).2 = p'.sights b := by
    apply List.map_congr_left
    intro r hr
    have away := slot_notMem_touched apart hr
    rw [Scene.heights, markers_tryPlacement away, isOccupied_tryPlacement away]
    rfl
  exact rules.outcome_congr sights rules.levels

theorem scene_tryBoth (apart : Disjoint (p.touched b) (p'.touched b)) :
    (rules.tryBoth b p p').scene =
      (b.scene.after rules.levels (rules.deeds b p)).after rules.levels (rules.deeds b p') := by
  have later : rules.deeds (rules.tryPlacement b p).2 p' = rules.deeds b p' := by
    rw [deeds, deeds, outcome_swap apart]
  rw [tryBoth, scene_tryPlacement, scene_tryPlacement, later]

theorem occupancy_swap (apart : Disjoint (p.touched b) (p'.touched b)) :
    (rules.tryBoth b p p').occupancy = (rules.tryBoth b p' p).occupancy := by
  simp only [tryBoth, occupancy_tryPlacement, taken, outcome_swap apart, outcome_swap apart.symm]
  exact foldl_comm_foldl (fun o s _ t _ => o.mark_comm s t) _

theorem nextId_swap (apart : Disjoint (p.touched b) (p'.touched b)) :
    (rules.tryBoth b p p').scene.nextId = (rules.tryBoth b p' p).scene.nextId := by
  rw [scene_tryBoth apart, scene_tryBoth apart.symm]
  exact Scene.nextId_after_swap _ _

theorem alike_swap (apart : Disjoint (p.touched b) (p'.touched b)) (slot : Slot) :
    MarkerList.AlikeBehind
      ((b.scene.markers slot).spared (rules.deeds b p ++ rules.deeds b p') slot)
      ((rules.tryBoth b p p').scene.markers slot) ((rules.tryBoth b p' p).scene.markers slot) := by
  rw [scene_tryBoth apart, scene_tryBoth apart.symm]
  by_cases reached : slot ∈ p.touched b
  · have quiet : slot ∉ p'.touched b := Set.disjoint_left.mp apart reached
    exact Scene.alike_after_swap (deeds_quiet quiet)
  · rw [MarkerList.spared_append_comm]
    exact (Scene.alike_after_swap (deeds_quiet reached)).symm

/-- Placements that touch disjoint sets of slots can be tried in either order: each has the
outcome that it has alone, the same slots are taken and as many identifiers used up. Every
slot keeps the markers that were there and are not removed, and gets the same new ones but
for their identifiers. -/
theorem tryPlacement_swap (apart : Disjoint (p.touched b) (p'.touched b)) :
    (rules.tryPlacement (rules.tryPlacement b p').2 p).1 = (rules.tryPlacement b p).1 ∧
    (rules.tryPlacement (rules.tryPlacement b p).2 p').1 = (rules.tryPlacement b p').1 ∧
    (rules.tryBoth b p p').occupancy = (rules.tryBoth b p' p).occupancy ∧
    (rules.tryBoth b p p').scene.nextId = (rules.tryBoth b p' p).scene.nextId ∧
    (rules.tryBoth b p p').scene.window = (rules.tryBoth b p' p).scene.window ∧
    (rules.tryBoth b p p').scene.cellSize = (rules.tryBoth b p' p).scene.cellSize ∧
    ∀ slot, MarkerList.AlikeBehind
      ((b.scene.markers slot).spared (rules.deeds b p ++ rules.deeds b p') slot)
      ((rules.tryBoth b p p').scene.markers slot) ((rules.tryBoth b p' p).scene.markers slot) := by
  refine ⟨outcome_swap apart.symm, outcome_swap apart, occupancy_swap apart, nextId_swap apart,
    ?_, ?_, alike_swap apart⟩
  · simp [tryBoth]
  · simp [tryBoth]

def clearing : Placement :=
  ⟨.zero, .ofPattern ⟨[⟨⟨0, 0⟩, .ground, removing "Wall", true⟩,
    ⟨⟨5, 5⟩, .ground, removing "Wall", true⟩]⟩⟩

def lighting : Placement :=
  ⟨.zero, .ofPattern ⟨[⟨⟨0, 0⟩, .corner, Processor.emitting "Torch", true⟩,
    ⟨⟨5, 5⟩, .ground, Processor.emitting "Torch", true⟩]⟩⟩

theorem tryPlacement_swap_clearing :
    Disjoint (clearing.touched oneWall) (lighting.touched oneWall) ∧
    (exclusive.tryPlacement (exclusive.tryPlacement oneWall lighting).2 clearing).1 =
      .executed ∧
    (exclusive.tryPlacement (exclusive.tryPlacement oneWall clearing).2 lighting).1 =
      .executed ∧
    (exclusive.tryBoth oneWall clearing lighting).occupancy =
      (exclusive.tryBoth oneWall lighting clearing).occupancy ∧
    ∀ slot, ((exclusive.tryBoth oneWall clearing lighting).scene.markers slot).eraseIds =
      ((exclusive.tryBoth oneWall lighting clearing).scene.markers slot).eraseIds := by
  have apart : Disjoint (clearing.touched oneWall) (lighting.touched oneWall) :=
    Placement.disjoint_touched (by decide +kernel)
  have lit : (Processor.emitting "Torch").selection = .selection (.literal true) := by cbv
  have cleared : (exclusive.tryPlacement oneWall clearing).1 = .executed :=
    executed_of_checks (.inr (by decide +kernel)) (.inl rfl) (by
      simp [conditionsHold, clearing, Orientation.ofPattern, Orientation.ofRules,
        PlacedRule.ofRule, selection_removing_wall, Condition.holds])
  have lights : (exclusive.tryPlacement oneWall lighting).1 = .executed :=
    executed_of_checks (.inr (by decide +kernel)) (.inl rfl) (by
      simp [conditionsHold, lighting, Orientation.ofPattern, Orientation.ofRules,
        PlacedRule.ofRule, lit, Condition.holds])
  obtain ⟨first, second, occupancy, -, -, -, alike⟩ := @tryPlacement_swap exclusive _ _ _ apart
  exact ⟨apart, first.trans cleared, second.trans lights, occupancy,
    fun slot => (alike slot).eraseIds⟩

end PassRules

end MarkerLattice
