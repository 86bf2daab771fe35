import Mathlib
import MarkerLattice.Proofs.Binary32.Order
import MarkerLattice.Proofs.Pass.Draws
import MarkerLattice.Proofs.Pass.Slots

/-! The gate of a pass. Every placement has a draw of its own, and the pass is what trying
the placements that get past the gate makes of the board. A draw gets past unless it
reaches the probability, so one that cannot be compared with it gets past as well. -/
namespace MarkerLattice

namespace RandomStream

variable {σ : Type} [RandomStream σ] {α : Type}

def deal (xs : List α) (s : σ) : List (α × Binary32) := xs.mapIdx fun i x => (x, fraction s i)

theorem deal_cons (x : α) (rest : List α) (s : σ) :
    deal (x :: rest) s = (x, (nextFraction s).1) :: deal rest (nextFraction s).2 :=
  List.mapIdx_cons

@[simp] theorem length_deal (xs : List α) (s : σ) : (deal xs s).length = xs.length :=
  List.length_mapIdx

end RandomStream

namespace Tally

def gates (t : Tally) (n : ℕ) : Tally := { t with gatedOut := t.gatedOut + n }

theorem gates_gate (t : Tally) (n : ℕ) : t.gate.gates n = t.gates (n + 1) := by
  simp only [gates, gate, Nat.add_right_comm, Nat.add_assoc]

theorem gates_record (t : Tally) (n : ℕ) (outcome : Outcome) :
    (t.record outcome).gates n = (t.gates n).record outcome := by
  cases outcome <;> rfl

@[simp] theorem gatedOut_record (t : Tally) (outcome : Outcome) :
    (t.record outcome).gatedOut = t.gatedOut := by
  cases outcome <;> rfl

end Tally

namespace PassRules

open RandomStream (deal deal_cons)

variable {σ : Type} [RandomStream σ] (rules : PassRules) (probability : Binary32)

def settle (x : Board × Tally) (p : Placement) : Board × Tally :=
  ((rules.tryPlacement x.1 p).2, x.2.record (rules.tryPlacement x.1 p).1)

/-- The gate commutes with the tries: what it leaves out is only counted. -/
theorem tryAll_eq_foldl_settle (ps : List Placement) (b : Board) (tally : Tally) (s : σ) :
    ((rules.tryAll probability ps b tally s).1, (rules.tryAll probability ps b tally s).2.1) =
      (((deal ps s).filter fun e => !probability.le e.2).map Prod.fst).foldl rules.settle
        (b, tally.gates ((deal ps s).countP fun e => probability.le e.2)) := by
  induction ps generalizing b tally s with
  | nil => rfl
  | cons p rest ih =>
    rw [tryAll, deal_cons]
    cases gated : probability.le (RandomStream.nextFraction s).1 with
    | true =>
      simp only [gated, if_true, ih, Tally.gates_gate, List.filter_cons, List.countP_cons,
        Bool.not_true, Bool.false_eq_true, if_false]
    | false =>
      simp only [gated, Bool.false_eq_true, if_false, ih, Tally.gates_record, List.filter_cons,
        List.countP_cons, Bool.not_false, if_true, List.map_cons, List.foldl_cons, settle,
        Nat.add_zero]

@[simp] theorem gatedOut_foldl_settle (ps : List Placement) (x : Board × Tally) :
    (ps.foldl rules.settle x).2.gatedOut = x.2.gatedOut :=
  List.foldlRecOn (motive := fun y : Board × Tally => y.2.gatedOut = x.2.gatedOut) ps _ rfl
    fun y hy p _ => (Tally.gatedOut_record y.2 (rules.tryPlacement y.1 p).1).trans hy

end PassRules

namespace Stage

variable {σ : Type} [RandomStream σ] (stage : Stage) (layer : Layer) (s : σ)

def drawn : List (Placement × Binary32) :=
  RandomStream.deal (stage.order layer.shuffle s).1 (stage.order layer.shuffle s).2

def reached : List (Placement × Binary32) :=
  (stage.drawn layer s).filter fun e => !layer.probability.le e.2

/-- What trying the placements that get past the gate makes of the board, the others being
counted beforehand. -/
def passed : Board × Tally :=
  ((stage.reached layer s).map Prod.fst).foldl stage.rules.settle (stage.board,
    (Tally.ofCandidates (stage.drawn layer s).length).gates
      ((stage.drawn layer s).length - (stage.reached layer s).length))

theorem mem_reached_iff {e : Placement × Binary32} (h : e ∈ stage.drawn layer s) :
    e ∈ stage.reached layer s ↔ e.2.lt layer.probability = true ∨
      layer.probability.isNaN = true ∨ e.2.isNaN = true := by
  simp [reached, h, Binary32.le_eq_false_iff]

variable {stage layer s}

theorem reached_eq_nil (number : layer.probability.isNaN = false)
    (above : ∀ e ∈ stage.drawn layer s, e.2.isNaN = false ∧ e.2.lt layer.probability = false) :
    stage.reached layer s = [] := by
  apply List.eq_nil_iff_forall_not_mem.mpr
  intro e he
  have here : e ∈ stage.drawn layer s := List.mem_of_mem_filter he
  obtain ⟨drawn, high⟩ := above e here
  simp [stage.mem_reached_iff layer s here, number, drawn, high] at he

theorem reached_eq_drawn (certain : layer.probability.isNaN = true ∨
      Binary32.one.le layer.probability = true ∧
        ∀ e ∈ stage.drawn layer s, e.2.lt .one = true) :
    stage.reached layer s = stage.drawn layer s := by
  rw [reached, List.filter_eq_self]
  intro e he
  rw [Bool.not_eq_true', Binary32.le_eq_false_iff]
  rcases certain with undefined | ⟨certain, below⟩
  · exact .inr (.inl undefined)
  · exact Binary32.le_eq_false_iff.mp (Binary32.not_le_of_lt certain (below e he))

variable (stage layer s)

theorem countP_drawn : ((stage.drawn layer s).countP fun e => layer.probability.le e.2) =
    (stage.drawn layer s).length - (stage.reached layer s).length := by
  rw [reached, ← List.countP_eq_length_filter, List.length_eq_countP_add_countP
    fun e : Placement × Binary32 => layer.probability.le e.2]
  simp

theorem gatedOut_passed : (stage.passed layer s).2.gatedOut =
    (stage.drawn layer s).length - (stage.reached layer s).length := by
  rw [passed, PassRules.gatedOut_foldl_settle]
  exact Nat.zero_add _

theorem fst_run_eq_passed (frame : Pose Binary32) :
    (stage.run frame layer.probability layer.shuffle s).1 =
      ⟨(stage.passed layer s).1.scene.flatten.map (.mapPose frame), (stage.passed layer s).2⟩ := by
  have gate := stage.rules.tryAll_eq_foldl_settle layer.probability
    (stage.order layer.shuffle s).1 stage.board
    (.ofCandidates (stage.order layer.shuffle s).1.length) (stage.order layer.shuffle s).2
  rw [← drawn, countP_drawn, ← RandomStream.length_deal (stage.order layer.shuffle s).1
    (stage.order layer.shuffle s).2, ← drawn, ← reached, ← passed] at gate
  rw [← gate]
  simp only [run, drawn, RandomStream.length_deal]

end Stage

namespace Processor

variable {σ : Type} [RandomStream σ] {d : Processor} {layer : Layer} {ms : List Marker}
  {stage : Stage}

/-- A pass tries the placements that get past the gate and counts the others as left out.
Those that get past are the ones whose own draw is below the probability, and those whose
draw cannot be compared with it. If all are numbers and no draw is below, the markers are
only put in order; a probability that no draw can reach and one that is no number leave
nothing out. -/
theorem process?_gate (h : d.stage? layer ms = some stage) (s : σ) :
    ∃ result s', d.process? layer ms s = some (result, s') ∧
      result.markers = (stage.passed layer s).1.scene.flatten.map (.mapPose d.frame) ∧
      result.tally = (stage.passed layer s).2 ∧
      result.tally.gatedOut + (stage.reached layer s).length = (stage.drawn layer s).length ∧
      (∀ e ∈ stage.drawn layer s, e ∈ stage.reached layer s ↔
        e.2.lt layer.probability = true ∨
          layer.probability.isNaN = true ∨ e.2.isNaN = true) ∧
      (layer.probability.isNaN = false →
        (∀ e ∈ stage.drawn layer s, e.2.isNaN = false ∧ e.2.lt layer.probability = false) →
        ∃ settings, layer.gridSettings? = some settings ∧
          result.tally.gatedOut = result.tally.candidates ∧
          result.markers = ((Scene.ofMarkers d.cellSize (ms.map (.mapPose d.frame.inverse))
            settings.margin).flatten).map (.mapPose d.frame)) ∧
      ((layer.probability.isNaN = true ∨ Binary32.one.le layer.probability = true ∧
          ∀ e ∈ stage.drawn layer s, e.2.lt .one = true) →
        result.tally.gatedOut = 0) := by
  have run := stage.fst_run_eq_passed layer s d.frame
  have gatedOut := stage.gatedOut_passed layer s
  have candidates : (stage.passed layer s).2.candidates = (stage.drawn layer s).length := by
    have counted := (stage.tally_run layer.shuffle d.frame layer.probability s).1
    rw [run] at counted
    rw [counted, Stage.drawn, RandomStream.length_deal, Stage.length_order]
  have within : (stage.reached layer s).length ≤ (stage.drawn layer s).length :=
    List.length_filter_le _ _
  refine ⟨(stage.run d.frame layer.probability layer.shuffle s).1,
    (stage.run d.frame layer.probability layer.shuffle s).2, ?_⟩
  rw [run]
  refine ⟨?_, rfl, rfl, ?_, fun e he => stage.mem_reached_iff layer s he,
    fun number above => ?_, fun certain => ?_⟩
  · rw [process?_eq_run, h, Option.map_some, ← run]
  · rw [gatedOut]
    exact Nat.sub_add_cancel within
  · have none := Stage.reached_eq_nil number above
    have still : (stage.passed layer s).1 = stage.board := by rw [Stage.passed, none]; rfl
    obtain ⟨pattern, settings, -, -, granted, rfl⟩ := stage?_eq_some_iff.mp h
    refine ⟨settings, granted, ?_, ?_⟩
    · rw [gatedOut, candidates, none]
      rfl
    · rw [still]
      rfl
  · rw [gatedOut, Stage.reached_eq_drawn certain, Nat.sub_self]

/-- The torches are placed if the probability is no number. None is if it is zero. -/
theorem process?_gate_torchlit :
    (∃ result s', upright.process? { torchLayer with probability := .nan } oneFloor
        (Congruential.ofSeed 1) = some (result, s') ∧ result.tally.gatedOut = 0) ∧
      ∃ result s', upright.process? { torchLayer with probability := .zero } oneFloor
        (Congruential.ofSeed 1) = some (result, s') ∧
          result.tally.gatedOut = result.tally.candidates ∧
          result.markers = oneFloor := by
  have staged (probability : Binary32) :
      upright.stage? { torchLayer with probability } oneFloor = some torchStage :=
    stage?_eq_some_iff.mpr ⟨_, .standard, rfl, by decide +kernel, rfl, rfl⟩
  have above : ∀ e ∈ torchStage.drawn { torchLayer with probability := .zero }
      (Congruential.ofSeed 1), e.2.isNaN = false ∧ e.2.lt .zero = false := by
    decide +kernel
  constructor
  · obtain ⟨result, s', run, -, -, -, -, -, certain⟩ :=
      process?_gate (staged .nan) (Congruential.ofSeed 1)
    exact ⟨result, s', run, certain (.inl (by decide))⟩
  · obtain ⟨result, s', run, -, -, -, -, barred, -⟩ :=
      process?_gate (staged .zero) (Congruential.ofSeed 1)
    obtain ⟨settings, granted, gatedOut, markers⟩ := barred (by decide) above
    obtain rfl : settings = .standard := (Option.some.inj granted).symm
    exact ⟨result, s', run, gatedOut, markers.trans (by decide +kernel)⟩

end Processor

end MarkerLattice
