import Mathlib
import MarkerLattice.Proofs.Pass.Attempts
import MarkerLattice.Proofs.Script.Chain
import MarkerLattice.Random.Congruential

/-! Without overlaps, a slot goes to the first executed placement that inserts on
it. An execution takes all slots it inserts on, slots stay taken, and a placement
that inserts on a taken slot is rejected before anything else is looked at. -/
namespace MarkerLattice

namespace PassRules

variable {σ : Type} [RandomStream σ] (rules : PassRules) (probability : Binary32)

@[simp] theorem window_after_attempt (b : Board) (p : Placement) (draw : Binary32) :
    Cells.window (rules.attempt probability b p draw).after.occupancy =
      Cells.window b.occupancy := by
  by_cases h : (rules.attempt probability b p draw).Executed
  · rw [after_of_executed h]
    exact rules.window_occupancy_foldl_runRule p b _
  · rw [after_of_not_executed h]

theorem isOccupied_after_of_isOccupied {b : Board} {slot : Slot}
    (taken : b.occupancy.isOccupied slot = true) (p : Placement) (draw : Binary32) :
    (rules.attempt probability b p draw).after.occupancy.isOccupied slot = true := by
  by_cases h : (rules.attempt probability b p draw).Executed
  · rw [after_of_executed h, isOccupied_foldl_runRule]
    exact .inl taken
  · rw [after_of_not_executed h]
    exact taken

theorem isOccupied_after_of_insertsOn {b : Board} {p : Placement} {draw : Binary32}
    {slot : Slot} (h : (rules.attempt probability b p draw).Executed)
    (inserts : p.InsertsOn slot)
    (inside : (Cells.window b.occupancy).contains slot.coord = true) :
    (rules.attempt probability b p draw).after.occupancy.isOccupied slot = true := by
  rw [after_of_executed h, isOccupied_foldl_runRule]
  exact .inr ⟨inside, inserts⟩

variable {rules}

theorem not_insertsOn_of_isOccupied (exclusive : rules.overlaps = false) {b : Board}
    {p : Placement} {draw : Binary32} {slot : Slot}
    (taken : b.occupancy.isOccupied slot = true)
    (h : (rules.attempt probability b p draw).Executed) : ¬ p.InsertsOn slot := by
  rintro ⟨r, hr, inserts, rfl⟩
  have free := (tryPlacement_of_executed (executed_attempt_iff.mp h).2).1
  have clash : overlapsAt b p = true :=
    List.any_eq_true.mpr ⟨r, hr, by simp [inserts, taken]⟩
  simp [exclusive, clash] at free

theorem not_insertsOn_of_mem_attempts (exclusive : rules.overlaps = false)
    {ps : List Placement} {b : Board} {s : σ} {slot : Slot}
    (taken : b.occupancy.isOccupied slot = true) {a : Attempt}
    (ha : a ∈ rules.attempts probability ps b s) (executed : a.Executed) :
    ¬ a.placement.InsertsOn slot := by
  induction ps generalizing b s with
  | nil => simp [attempts] at ha
  | cons p rest ih =>
    simp only [attempts, List.mem_cons] at ha
    rcases ha with rfl | later
    · rw [placement_attempt]
      exact not_insertsOn_of_isOccupied probability exclusive taken executed
    · exact ih (rules.isOccupied_after_of_isOccupied probability taken p _) later

/-- Of two attempts that are executed the later one does not insert on a slot of
the window that the earlier one inserts on. -/
theorem pairwise_attempts (exclusive : rules.overlaps = false) (ps : List Placement)
    (b : Board) (s : σ) {slot : Slot}
    (inside : (Cells.window b.occupancy).contains slot.coord = true) :
    (rules.attempts probability ps b s).Pairwise fun earlier later =>
      earlier.Executed → earlier.placement.InsertsOn slot →
        later.Executed → ¬ later.placement.InsertsOn slot := by
  induction ps generalizing b s with
  | nil => exact .nil
  | cons p rest ih =>
    rw [attempts, List.pairwise_cons]
    constructor
    · intro later hlater executed inserts
      rw [placement_attempt] at inserts
      have taken := rules.isOccupied_after_of_insertsOn probability executed inserts inside
      exact not_insertsOn_of_mem_attempts probability exclusive taken hlater
    · exact ih _ _ ((rules.window_after_attempt probability b p _).symm ▸ inside)

end PassRules

namespace Stage

variable {σ : Type} [RandomStream σ]

theorem window_occupancy_ofPattern (pattern : Pattern) (settings : GridSettings)
    (rotate overlaps : Bool) (cellSize : Vec3 Binary32) (ms : List Marker) :
    Cells.window (ofPattern pattern settings rotate overlaps cellSize ms).board.occupancy =
      (ofPattern pattern settings rotate overlaps cellSize ms).board.scene.window :=
  Cells.window_fill _ _

end Stage

namespace Processor

variable {σ : Type} [RandomStream σ] {d : Processor} {layer : Layer} {ms : List Marker}
  {stage : Stage}

theorem window_occupancy_of_stage? (h : d.stage? layer ms = some stage) :
    Cells.window stage.board.occupancy = stage.board.scene.window := by
  obtain ⟨pattern, settings, -, -, -, rfl⟩ := stage?_eq_some_iff.mp h
  exact Stage.window_occupancy_ofPattern _ _ _ _ _ _

theorem overlaps_of_stage? (h : d.stage? layer ms = some stage) :
    stage.rules.overlaps = layer.overlaps := by
  obtain ⟨pattern, settings, -, -, -, rfl⟩ := stage?_eq_some_iff.mp h
  rfl

theorem declared_of_mem_attempts (h : d.stage? layer ms = some stage) {s : σ} {a : Attempt}
    (ha : a ∈ d.attempts layer ms s) : a.placement.orientation.Declared := by
  rw [attempts_of_stage? h] at ha
  obtain ⟨pattern, settings, -, -, -, rfl⟩ := stage?_eq_some_iff.mp h
  exact Orientation.declared_of_mem_ofPatternAll
    (Stage.orientation_mem_of_mem_placements (Stage.placement_mem_of_mem_attempts ha))

theorem insertsOn_of_mem_emissions (h : d.stage? layer ms = some stage) {s : σ} {a : Attempt}
    (ha : a ∈ d.attempts layer ms s) {slot : Slot} {e : Emission}
    (he : (slot, e) ∈ a.emissions) : a.Executed ∧ a.placement.InsertsOn slot := by
  obtain ⟨executed, r, hr, hslot, emits⟩ := (a.mem_emissions_iff slot e).mp he
  have emission := Script.hasEmission_of_emit_mem_effects emits
  exact ⟨executed, r, hr, declared_of_mem_attempts h ha r hr emission, hslot⟩

/-- A pass returns what its attempts leave. In a layer without overlaps at most one attempt
that is executed inserts on a slot of the window. Every rule that emits inserts, so all
emissions on the slot are that attempt's. -/
theorem attempts_exclusive (exclusive : layer.overlaps = false)
    (h : d.stage? layer ms = some stage) (s : σ) (slot : Slot)
    (inside : stage.board.scene.window.contains slot.coord = true)
    {i j : Nat} {a a' : Attempt} (hi : (d.attempts layer ms s)[i]? = some a)
    (hj : (d.attempts layer ms s)[j]? = some a') :
    (d.process? layer ms s).map Prod.fst =
      some (stage.resultOf d.frame (d.attempts layer ms s)) ∧
    (a.Executed → a.placement.InsertsOn slot →
      a'.Executed → a'.placement.InsertsOn slot → i = j) ∧
    a.placement.orientation.Declared ∧
    (∀ e e', (slot, e) ∈ a.emissions → (slot, e') ∈ a'.emissions → i = j) := by
  have once : a.Executed → a.placement.InsertsOn slot →
      a'.Executed → a'.placement.InsertsOn slot → i = j := by
    intro run inserts run' inserts'
    rw [attempts_of_stage? h] at hi hj
    rw [← window_occupancy_of_stage? h] at inside
    rw [← overlaps_of_stage? h] at exclusive
    have apart := List.pairwise_iff_getElem.mp (PassRules.pairwise_attempts
      layer.probability exclusive (stage.order layer.shuffle s).1 stage.board
      (stage.order layer.shuffle s).2 inside)
    obtain ⟨li, rfl⟩ := List.getElem?_eq_some_iff.mp hi
    obtain ⟨lj, rfl⟩ := List.getElem?_eq_some_iff.mp hj
    rcases lt_trichotomy i j with before | same | behind
    · exact absurd inserts' (apart i j li lj before run inserts run')
    · exact same
    · exact absurd inserts (apart j i lj li behind run' inserts' run)
  refine ⟨process?_of_stage? h s, once, declared_of_mem_attempts h (List.mem_of_getElem? hi),
    fun e e' he he' => ?_⟩
  have first := insertsOn_of_mem_emissions h (List.mem_of_getElem? hi) he
  have second := insertsOn_of_mem_emissions h (List.mem_of_getElem? hj) he'
  exact once first.1 first.2 second.1 second.2

def aslant : Pattern := ⟨[⟨⟨1, 1⟩, .ground, PassRules.removing "Wall", true⟩]⟩

def aslantLayer : Layer := { Layer.standard with shuffle := false, pattern := some aslant }

def upright : Processor := ⟨.identity, .one⟩

def aslantStage : Stage := .ofPattern aslant .standard true false .one []

theorem stage?_aslantLayer : upright.stage? aslantLayer [] = some aslantStage := by
  have effect : aslant.hasEffect = true := by decide +kernel
  exact stage?_eq_some_iff.mpr ⟨aslant, .standard, rfl, effect, rfl, rfl⟩

def aslantRun : List Attempt := upright.attempts aslantLayer [] (Congruential.ofSeed 1)

theorem placement_aslantRun (i : Nat) :
    aslantRun[i]?.map Attempt.placement = aslantStage.placements[i]? := by
  rw [← List.getElem?_map, aslantRun, attempts_of_stage? stage?_aslantLayer]
  exact congrArg (·[i]?) (aslantStage.rules.map_placement_attempts _ _ _ _)

theorem conditionsHold_aslant {p : Placement} (h : p ∈ aslantStage.placements) (b : Board) :
    PassRules.conditionsHold b p = true := by
  have authored : ∀ r ∈ (Orientation.ofPattern aslant).rules,
      r.script = PassRules.removing "Wall" := by
    simp [Orientation.ofPattern, aslant, PlacedRule.ofRule]
  have scripts := Orientation.forall_mem_turns
    (P := fun o => ∀ r ∈ o.rules, r.script = PassRules.removing "Wall")
    (fun o ho => by rw [Orientation.rules_turned, List.forall_mem_map]; exact ho) 3 _ authored
    p.orientation (Stage.orientation_mem_of_mem_placements h)
  apply List.all_eq_true.mpr
  intro r hr
  rw [scripts r hr, PassRules.selection_removing_wall]
  rfl

theorem insertsOn_aslantRun {i : Nat} (hi : i ∈ [0, 11]) : ∃ a, aslantRun[i]? = some a ∧
    a.placement.InsertsOn ⟨.zero, .ground⟩ := by
  have placed : ∀ i ∈ [0, 11], (aslantStage.placements[i]?.any
      fun p => p.InsertsOn ⟨.zero, .ground⟩) = true := by
    decide +kernel
  have h := placed i hi
  rw [← placement_aslantRun] at h
  cases ha : aslantRun[i]? with
  | none => simp [ha] at h
  | some a => exact ⟨a, rfl, by simpa [ha] using h⟩

theorem executed_aslantRun {a : Attempt} (ha : aslantRun[0]? = some a) : a.Executed := by
  have order : aslantStage.order aslantLayer.shuffle (Congruential.ofSeed 1) =
      (aslantStage.placements, Congruential.ofSeed 1) := rfl
  have drawn : aslantLayer.probability.le
      (RandomStream.nextFraction (Congruential.ofSeed 1)).1 = false := by
    decide +kernel
  rw [aslantRun, attempts_of_stage? stage?_aslantLayer, Stage.attempts, order] at ha
  cases hp : aslantStage.placements with
  | nil => simp [hp, PassRules.attempts] at ha
  | cons p rest =>
    rw [hp] at ha
    obtain rfl := Option.some.inj ha
    have hold := conditionsHold_aslant (hp ▸ List.mem_cons_self) aslantStage.board
    have free : PassRules.overlapsAt aslantStage.board p = false := by
      simp [PassRules.overlapsAt, aslantStage, Stage.ofPattern]
    exact PassRules.executed_attempt_iff.mpr
      ⟨drawn, PassRules.executed_of_checks (.inr free) (.inl rfl) hold⟩

theorem attempts_exclusive_aslant : ∃ a a' : Attempt,
    (upright.process? aslantLayer [] (Congruential.ofSeed 1)).map Prod.fst =
      some (aslantStage.resultOf upright.frame aslantRun) ∧
    aslantRun[0]? = some a ∧ aslantRun[11]? = some a' ∧
      a.Executed ∧ a.placement.InsertsOn ⟨.zero, .ground⟩ ∧
      a'.placement.InsertsOn ⟨.zero, .ground⟩ ∧ ¬ a'.Executed := by
  obtain ⟨a, ha, onTile⟩ := insertsOn_aslantRun (i := 0) (by decide)
  obtain ⟨a', ha', onTile'⟩ := insertsOn_aslantRun (i := 11) (by decide)
  have executed := executed_aslantRun ha
  obtain ⟨returned, once, -⟩ := attempts_exclusive rfl stage?_aslantLayer (Congruential.ofSeed 1)
    ⟨.zero, .ground⟩ (by decide +kernel) ha ha'
  refine ⟨a, a', returned, ha, ha', executed, onTile, onTile', fun executed' => ?_⟩
  have same := once executed onTile executed' onTile'
  omega

end Processor

end MarkerLattice
