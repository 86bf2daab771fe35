import Mathlib
import MarkerLattice.Pass
import MarkerLattice.Proofs.Lattice.Scene

/-! A placement either leaves the board alone or runs every one of its rules.
The rules then write to their own slots and take the slots that they insert on. -/
namespace MarkerLattice

def Placement.InsertsOn (p : Placement) (slot : Slot) : Prop :=
  ∃ r ∈ p.orientation.rules, r.inserts = true ∧ p.slot r = slot

instance (p : Placement) (slot : Slot) : Decidable (p.InsertsOn slot) :=
  inferInstanceAs (Decidable (∃ r ∈ p.orientation.rules, r.inserts = true ∧ p.slot r = slot))

namespace PassRules

variable (rules : PassRules) (p : Placement) (b : Board)

@[simp] theorem window_scene_runRule (r : PlacedRule) :
    (rules.runRule p b r).scene.window = b.scene.window :=
  (b.scene.agreesOff_performAll rules.levels (p.stance r) r.script.effects).window

@[simp] theorem window_occupancy_runRule (r : PlacedRule) :
    Cells.window (rules.runRule p b r).occupancy = Cells.window b.occupancy := by
  unfold runRule
  split
  · exact Occupancy.window_mark _ _
  · rfl

theorem isOccupied_runRule (r : PlacedRule) (slot : Slot) :
    (rules.runRule p b r).occupancy.isOccupied slot = true ↔
      b.occupancy.isOccupied slot = true ∨
        (Cells.window b.occupancy).contains slot.coord = true ∧
          r.inserts = true ∧ p.slot r = slot := by
  unfold runRule
  split
  next h =>
    rw [Occupancy.isOccupied_mark]
    simp only [h, Bool.or_eq_true, Bool.and_eq_true, decide_eq_true_eq, true_and,
      eq_comm (a := slot), and_comm]
  next h => simp [h]

theorem agreesOff_foldl_runRule (rs : List PlacedRule) :
    Scene.AgreesOff (fun t => ∃ r ∈ rs, Scene.Reach b.scene.window (p.slot r) t) b.scene
      (rs.foldl (rules.runRule p) b).scene := by
  induction rs generalizing b with
  | nil => exact .refl _ _
  | cons r rest ih =>
    have head := b.scene.agreesOff_performAll rules.levels (p.stance r) r.script.effects
    have tail := ih (rules.runRule p b r)
    rw [window_scene_runRule] at tail
    refine (head.mono fun t ht => ?_).trans (tail.mono fun t ht => ?_)
    · exact ⟨r, by simp, ht⟩
    · obtain ⟨r', hr', ht⟩ := ht
      exact ⟨r', .tail _ hr', ht⟩

theorem window_occupancy_foldl_runRule (rs : List PlacedRule) :
    Cells.window (rs.foldl (rules.runRule p) b).occupancy = Cells.window b.occupancy := by
  induction rs generalizing b with
  | nil => rfl
  | cons r rest ih => exact (ih _).trans (rules.window_occupancy_runRule p b r)

theorem isOccupied_foldl_runRule (rs : List PlacedRule) (slot : Slot) :
    (rs.foldl (rules.runRule p) b).occupancy.isOccupied slot = true ↔
      b.occupancy.isOccupied slot = true ∨
        (Cells.window b.occupancy).contains slot.coord = true ∧
          ∃ r ∈ rs, r.inserts = true ∧ p.slot r = slot := by
  induction rs generalizing b with
  | nil => simp
  | cons r rest ih =>
    rw [List.foldl_cons, ih, isOccupied_runRule, window_occupancy_runRule]
    simp only [List.exists_mem_cons_iff]
    tauto

/-- Everything that a try can do. -/
theorem tryPlacement_cases :
    (rules.overlaps = false ∧ overlapsAt b p = true ∧
      rules.tryPlacement b p = (.overlapRejected, b)) ∨
    (rules.sameHeight ≠ [] ∧ rules.heightsAgree b p = false ∧
      rules.tryPlacement b p = (.heightRejected, b)) ∨
    (conditionsHold b p = false ∧ rules.tryPlacement b p = (.conditionFailed, b)) ∨
    ((rules.overlaps = true ∨ overlapsAt b p = false) ∧
      (rules.sameHeight = [] ∨ rules.heightsAgree b p = true) ∧
      conditionsHold b p = true ∧
      rules.tryPlacement b p =
        (.executed, p.orientation.rules.foldl (rules.runRule p) b)) := by
  unfold tryPlacement
  cases hover : (!rules.overlaps && overlapsAt b p) with
  | true =>
    simp only [Bool.and_eq_true, Bool.not_eq_true'] at hover
    exact .inl ⟨hover.1, hover.2, rfl⟩
  | false =>
    have free : rules.overlaps = true ∨ overlapsAt b p = false := by
      simpa only [Bool.and_eq_false_iff, Bool.not_eq_false'] using hover
    cases hheight : (!rules.sameHeight.isEmpty && !rules.heightsAgree b p) with
    | true =>
      simp only [Bool.and_eq_true, Bool.not_eq_true', List.isEmpty_eq_false_iff] at hheight
      exact .inr (.inl ⟨hheight.1, hheight.2, rfl⟩)
    | false =>
      have level : rules.sameHeight = [] ∨ rules.heightsAgree b p = true := by
        simpa only [Bool.and_eq_false_iff, Bool.not_eq_false', List.isEmpty_iff] using hheight
      cases hcond : conditionsHold b p with
      | false => exact .inr (.inr (.inl ⟨rfl, rfl⟩))
      | true => exact .inr (.inr (.inr ⟨free, level, rfl, rfl⟩))

theorem tryPlacement_of_executed {rules : PassRules} {p : Placement} {b : Board}
    (h : (rules.tryPlacement b p).1 = .executed) :
    (rules.overlaps = true ∨ overlapsAt b p = false) ∧ conditionsHold b p = true ∧
      (rules.tryPlacement b p).2 = p.orientation.rules.foldl (rules.runRule p) b := by
  rcases rules.tryPlacement_cases p b with
    ⟨-, -, run⟩ | ⟨-, -, run⟩ | ⟨-, run⟩ | ⟨free, -, hold, run⟩
  · simp [run] at h
  · simp [run] at h
  · simp [run] at h
  · exact ⟨free, hold, congrArg Prod.snd run⟩

theorem executed_of_checks {rules : PassRules} {p : Placement} {b : Board}
    (free : rules.overlaps = true ∨ overlapsAt b p = false)
    (level : rules.sameHeight = [] ∨ rules.heightsAgree b p = true)
    (hold : conditionsHold b p = true) : (rules.tryPlacement b p).1 = .executed := by
  rcases rules.tryPlacement_cases p b with
    ⟨exclusive, clash, -⟩ | ⟨tracked, apart, -⟩ | ⟨fails, -⟩ | ⟨-, -, -, run⟩
  · simp [exclusive, clash] at free
  · simp [tracked, apart] at level
  · simp [hold] at fails
  · rw [run]

theorem tryPlacement_of_not_executed {rules : PassRules} {p : Placement} {b : Board}
    (h : (rules.tryPlacement b p).1 ≠ .executed) : (rules.tryPlacement b p).2 = b := by
  rcases rules.tryPlacement_cases p b with
    ⟨-, -, run⟩ | ⟨-, -, run⟩ | ⟨-, run⟩ | ⟨-, -, -, run⟩
  · rw [run]
  · rw [run]
  · rw [run]
  · simp [run] at h

theorem snd_tryPlacement : (rules.tryPlacement b p).2 =
    if (rules.tryPlacement b p).1 = .executed then
      p.orientation.rules.foldl (rules.runRule p) b
    else b := by
  split
  next h => exact (tryPlacement_of_executed h).2.2
  next h => exact tryPlacement_of_not_executed h

/-- A placement that is not executed leaves markers, identifiers and occupancy
as they are. One that is executed met the conditions of all its rules on the
board as it was, changes the markers of no slot but those of its rules inside
the window, and takes exactly the slots in the window that it inserts on. -/
theorem tryPlacement_atomic :
    ((rules.tryPlacement b p).1 ≠ .executed → (rules.tryPlacement b p).2 = b) ∧
    ((rules.tryPlacement b p).1 = .executed →
      (∀ r ∈ p.orientation.rules,
        r.script.selection.holds (b.scene.contains (p.slot r)) = true) ∧
      (∀ slot, (rules.tryPlacement b p).2.scene.markers slot ≠ b.scene.markers slot →
        b.scene.window.contains slot.coord = true ∧
          ∃ r ∈ p.orientation.rules, p.slot r = slot) ∧
      (rules.tryPlacement b p).2.scene.window = b.scene.window ∧
      Cells.window (rules.tryPlacement b p).2.occupancy = Cells.window b.occupancy ∧
      ∀ slot, (rules.tryPlacement b p).2.occupancy.isOccupied slot = true ↔
        b.occupancy.isOccupied slot = true ∨
          (Cells.window b.occupancy).contains slot.coord = true ∧ p.InsertsOn slot) := by
  refine ⟨tryPlacement_of_not_executed, fun h => ?_⟩
  obtain ⟨-, hold, run⟩ := tryPlacement_of_executed h
  have frame := rules.agreesOff_foldl_runRule p b p.orientation.rules
  rw [run]
  refine ⟨?_, fun slot changed => ?_, frame.window, ?_, ?_⟩
  · simpa [conditionsHold] using hold
  · obtain ⟨r, hr, rfl, inside⟩ := not_not.mp fun untouched =>
      changed (frame.markers slot untouched)
    exact ⟨inside, r, hr, rfl⟩
  · exact rules.window_occupancy_foldl_runRule p b _
  · exact rules.isOccupied_foldl_runRule p b _

def oneWall : Board :=
  let wall : Marker := ⟨0, "Wall", .ofPosition ⟨.half, .half, .zero⟩⟩
  let scene := Scene.ofMarkers ⟨.one, .one, .one⟩ [wall] 0
  ⟨scene, .none scene.window⟩

def takenWall : Board :=
  { oneWall with occupancy := oneWall.occupancy.mark ⟨.zero, .ground⟩ }

def removing (name : String) : Script :=
  ((Script.withEntries.createNode (.removeMarker name)).2.setLink 1 Pin.defaultOutput .output
    (some ⟨2, Pin.defaultInput⟩)).setLink 2 Pin.defaultInput .input
    (some ⟨1, Pin.defaultOutput⟩)

theorem selection_removing_wall :
    (removing "Wall").selection = .selection (.literal true) := by
  cbv

def wallRemoval : Placement :=
  ⟨.zero, .ofPattern ⟨[⟨⟨0, 0⟩, .ground, removing "Wall", true⟩]⟩⟩

def exclusive : PassRules where
  levels := Cells.fill oneWall.scene.window (.replicate 0)
  cellHeight := .one
  sameHeight := []
  overlaps := false

theorem tryPlacement_wallRemoval :
    (exclusive.tryPlacement oneWall wallRemoval).1 = .executed ∧
    (exclusive.tryPlacement oneWall wallRemoval).2.occupancy.isOccupied ⟨.zero, .ground⟩ = true ∧
    (exclusive.tryPlacement oneWall wallRemoval).2.scene.window = oneWall.scene.window ∧
    (exclusive.tryPlacement takenWall wallRemoval).1 ≠ .executed ∧
    (exclusive.tryPlacement takenWall wallRemoval).2 = takenWall := by
  have free : overlapsAt oneWall wallRemoval = false := by decide +kernel
  have taken : overlapsAt takenWall wallRemoval = true := by decide +kernel
  have hold : conditionsHold oneWall wallRemoval = true := by
    simp [conditionsHold, wallRemoval, Orientation.ofPattern, Orientation.ofRules,
      PlacedRule.ofRule, selection_removing_wall, Condition.holds]
  have run : (exclusive.tryPlacement oneWall wallRemoval).1 = .executed :=
    executed_of_checks (.inr free) (.inl rfl) hold
  have stay : (exclusive.tryPlacement takenWall wallRemoval).1 ≠ .executed := by
    simp [tryPlacement, taken, exclusive]
  obtain ⟨-, -, window, -, occupied⟩ :=
    (tryPlacement_atomic exclusive wallRemoval oneWall).2 run
  refine ⟨run, (occupied _).mpr (.inr ⟨by decide +kernel, ?_⟩), window, stay, ?_⟩
  · exact ⟨_, List.mem_singleton.mpr rfl, rfl, by decide +kernel⟩
  · exact (tryPlacement_atomic exclusive wallRemoval takenWall).1 stay

end PassRules

end MarkerLattice
