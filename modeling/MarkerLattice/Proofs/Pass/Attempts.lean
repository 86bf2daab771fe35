import Mathlib
import MarkerLattice.Proofs.Pass.Placement
import MarkerLattice.Proofs.Pattern.Orientation
import MarkerLattice.Proofs.Random.Shuffle

/-! The run of a pass, attempt by attempt. A pass returns the board after its
last attempt and counts the outcomes of all of them. -/
namespace MarkerLattice

/-- One placement of a run: its draw, the board before and after it, and its
outcome if it was tried. -/
structure Attempt where
  placement : Placement
  draw : Binary32
  before : Board
  after : Board
  outcome? : Option Outcome

namespace Attempt

def Executed (a : Attempt) : Prop := a.outcome? = some .executed

def emissions (a : Attempt) : List (Slot × Emission) :=
  if a.outcome? = some .executed then
    a.placement.orientation.rules.flatMap fun r =>
      r.script.effects.filterMap fun
        | .emit e => some (a.placement.slot r, e)
        | .remove _ => none
  else []

theorem mem_emissions_iff (a : Attempt) (slot : Slot) (e : Emission) :
    (slot, e) ∈ a.emissions ↔ a.Executed ∧
      ∃ r ∈ a.placement.orientation.rules, a.placement.slot r = slot ∧
        .emit e ∈ r.script.effects := by
  unfold emissions Executed
  split
  next h =>
    simp only [h, true_and, List.mem_flatMap, List.mem_filterMap]
    constructor
    · rintro ⟨r, hr, effect, he, heq⟩
      cases effect with
      | emit e' =>
        simp only [Option.some.injEq, Prod.mk.injEq] at heq
        exact ⟨r, hr, heq.1, heq.2 ▸ he⟩
      | remove name => simp at heq
    · rintro ⟨r, hr, rfl, he⟩
      exact ⟨r, hr, .emit e, he, rfl⟩
  next h => simp [h]

end Attempt

namespace Tally

def count (tally : Tally) : Option Outcome → Tally
  | none => tally.gate
  | some outcome => tally.record outcome

end Tally

namespace PassRules

variable {σ : Type} [RandomStream σ] (rules : PassRules) (probability : Binary32)

def attempt (b : Board) (p : Placement) (draw : Binary32) : Attempt :=
  if probability.le draw then ⟨p, draw, b, b, none⟩
  else ⟨p, draw, b, (rules.tryPlacement b p).2, some (rules.tryPlacement b p).1⟩

theorem executed_attempt_iff {rules : PassRules} {probability draw : Binary32} {b : Board}
    {p : Placement} : (rules.attempt probability b p draw).Executed ↔
      probability.le draw = false ∧ (rules.tryPlacement b p).1 = .executed := by
  unfold Attempt.Executed attempt
  split
  next gated => simp [gated]
  next drawn => simp [drawn]

theorem after_of_executed {rules : PassRules} {probability draw : Binary32} {b : Board}
    {p : Placement} (h : (rules.attempt probability b p draw).Executed) :
    (rules.attempt probability b p draw).after =
      p.orientation.rules.foldl (rules.runRule p) b := by
  obtain ⟨drawn, executed⟩ := executed_attempt_iff.mp h
  rw [attempt, drawn]
  exact (tryPlacement_of_executed executed).2.2

theorem after_of_not_executed {rules : PassRules} {probability draw : Binary32} {b : Board}
    {p : Placement} (h : ¬ (rules.attempt probability b p draw).Executed) :
    (rules.attempt probability b p draw).after = b := by
  rw [executed_attempt_iff] at h
  unfold attempt
  split
  · rfl
  next drawn =>
    exact tryPlacement_of_not_executed fun executed => h ⟨by simpa using drawn, executed⟩

@[simp] theorem placement_attempt (b : Board) (p : Placement) (draw : Binary32) :
    (rules.attempt probability b p draw).placement = p := by
  unfold attempt
  split <;> rfl

def attempts : List Placement → Board → σ → List Attempt
  | [], _, _ => []
  | p :: rest, b, s =>
    let (draw, s) := RandomStream.nextFraction s
    let a := rules.attempt probability b p draw
    a :: attempts rest a.after s

def boardAfter (b : Board) : List Attempt → Board
  | [] => b
  | a :: rest => boardAfter a.after rest

theorem tryAll_eq_attempts (ps : List Placement) (b : Board) (tally : Tally) (s : σ) :
    (rules.tryAll probability ps b tally s).1 =
        boardAfter b (rules.attempts probability ps b s) ∧
      (rules.tryAll probability ps b tally s).2.1 =
        (rules.attempts probability ps b s).foldl (fun t a => t.count a.outcome?) tally := by
  induction ps generalizing b tally s with
  | nil => exact ⟨rfl, rfl⟩
  | cons p rest ih =>
    simp only [tryAll, attempts, attempt, boardAfter, List.foldl_cons]
    split
    · exact ih _ _ _
    · exact ih _ _ _

theorem map_placement_attempts (ps : List Placement) (b : Board) (s : σ) :
    (rules.attempts probability ps b s).map Attempt.placement = ps := by
  induction ps generalizing b s with
  | nil => rfl
  | cons p rest ih =>
    simp only [attempts, List.map_cons, ih, attempt]
    split <;> rfl

end PassRules

namespace Stage

variable {σ : Type} [RandomStream σ]

def order (stage : Stage) (shuffle : Bool) (s : σ) : List Placement × σ :=
  if shuffle then
    let (a, s) := RandomStream.shuffle stage.placements.toArray s
    (a.toList, s)
  else (stage.placements, s)

theorem order_perm (stage : Stage) (shuffle : Bool) (s : σ) :
    (stage.order shuffle s).1.Perm stage.placements := by
  unfold order
  split
  · exact (RandomStream.shuffle_perm stage.placements.toArray s).toList
  · exact .refl _

def run (stage : Stage) (frame : Pose Binary32) (probability : Binary32) (shuffle : Bool)
    (s : σ) : PassResult × σ :=
  let (ps, s) := stage.order shuffle s
  let (board, tally, s) :=
    stage.rules.tryAll probability ps stage.board (.ofCandidates ps.length) s
  ({ markers := board.scene.flatten.map (.mapPose frame), tally }, s)

def attempts (stage : Stage) (layer : Layer) (s : σ) : List Attempt :=
  stage.rules.attempts layer.probability (stage.order layer.shuffle s).1 stage.board
    (stage.order layer.shuffle s).2

def resultOf (stage : Stage) (frame : Pose Binary32) (as : List Attempt) : PassResult where
  markers := (PassRules.boardAfter stage.board as).scene.flatten.map (.mapPose frame)
  tally := as.foldl (fun t a => t.count a.outcome?) (.ofCandidates as.length)

theorem length_attempts (stage : Stage) (layer : Layer) (s : σ) :
    (stage.attempts layer s).length = (stage.order layer.shuffle s).1.length := by
  have placements := stage.rules.map_placement_attempts layer.probability
    (stage.order layer.shuffle s).1 stage.board (stage.order layer.shuffle s).2
  rw [← placements, List.length_map, attempts]

theorem placement_mem_of_mem_attempts {stage : Stage} {layer : Layer} {s : σ} {a : Attempt}
    (h : a ∈ stage.attempts layer s) : a.placement ∈ stage.placements := by
  have tried := stage.rules.map_placement_attempts layer.probability
    (stage.order layer.shuffle s).1 stage.board (stage.order layer.shuffle s).2
  rw [← (stage.order_perm layer.shuffle s).mem_iff, ← tried]
  exact List.mem_map_of_mem h

theorem orientation_mem_of_mem_placements {stage : Stage} {p : Placement}
    (h : p ∈ stage.placements) : p.orientation ∈ stage.orientations := by
  obtain ⟨o, ho, hp⟩ := List.mem_flatMap.mp h
  exact Placement.orientation_of_mem_around hp ▸ ho

end Stage

namespace Processor

variable {σ : Type} [RandomStream σ] (d : Processor) (layer : Layer) (ms : List Marker)

/-- The pass of a layer before it begins, if the layer applies. -/
def stage? : Option Stage :=
  if !(layer.pattern.any Pattern.hasEffect) then none
  else Stage.ofLayer? layer d.cellSize (ms.map (.mapPose d.frame.inverse))

variable {d layer ms}

theorem stage?_of_pattern {pattern : Pattern} (h : layer.pattern = some pattern) :
    d.stage? layer ms = if pattern.hasEffect then
        layer.gridSettings?.map fun settings =>
          .ofPattern pattern settings layer.rotate layer.overlaps d.cellSize
            (ms.map (.mapPose d.frame.inverse))
      else none := by
  unfold stage? Stage.ofLayer?
  rw [h]
  cases layer.gridSettings? with
  | none => simp
  | some settings => cases effect : pattern.hasEffect <;> simp [effect]

theorem stage?_eq_some_iff {stage : Stage} : d.stage? layer ms = some stage ↔
    ∃ pattern settings, layer.pattern = some pattern ∧ pattern.hasEffect = true ∧
      layer.gridSettings? = some settings ∧
      stage = .ofPattern pattern settings layer.rotate layer.overlaps d.cellSize
        (ms.map (.mapPose d.frame.inverse)) := by
  cases h : layer.pattern with
  | none => simp [stage?, h]
  | some pattern =>
    rw [stage?_of_pattern h]
    cases effect : pattern.hasEffect <;> cases layer.gridSettings? <;>
      simp [effect, eq_comm (a := stage)]

theorem exists_settings_of_stage? {pattern : Pattern} {stage : Stage}
    (authored : layer.pattern = some pattern) (h : d.stage? layer ms = some stage) :
    ∃ settings, stage = .ofPattern pattern settings layer.rotate layer.overlaps d.cellSize
      (ms.map (.mapPose d.frame.inverse)) := by
  obtain ⟨pattern', settings, authored', -, -, rfl⟩ := stage?_eq_some_iff.mp h
  obtain rfl : pattern' = pattern := Option.some.inj (authored'.symm.trans authored)
  exact ⟨settings, rfl⟩

variable (d layer ms)

def attempts (s : σ) : List Attempt :=
  match d.stage? layer ms with
  | none => []
  | some stage => stage.attempts layer s

theorem attempts_of_stage? {d : Processor} {layer : Layer} {ms : List Marker} {stage : Stage}
    (h : d.stage? layer ms = some stage) (s : σ) :
    d.attempts layer ms s = stage.attempts layer s := by
  rw [attempts, h]

theorem process?_eq_run (s : σ) : d.process? layer ms s =
    (d.stage? layer ms).map fun stage =>
      stage.run d.frame layer.probability layer.shuffle s := by
  unfold process? stage?
  split
  · rfl
  · rfl

/-- A pass returns what its attempts leave and counts their outcomes. -/
theorem process?_of_stage? {d : Processor} {layer : Layer} {ms : List Marker} {stage : Stage}
    (h : d.stage? layer ms = some stage) (s : σ) :
    (d.process? layer ms s).map Prod.fst =
      some (stage.resultOf d.frame (d.attempts layer ms s)) := by
  obtain ⟨board, tally⟩ := stage.rules.tryAll_eq_attempts layer.probability
    (stage.order layer.shuffle s).1 stage.board
    (.ofCandidates (stage.order layer.shuffle s).1.length)
    (stage.order layer.shuffle s).2
  rw [process?_eq_run, h, attempts_of_stage? h, Stage.resultOf, Stage.length_attempts]
  simp only [Option.map_some, Stage.run, Stage.attempts, board, tally]

end Processor

end MarkerLattice
