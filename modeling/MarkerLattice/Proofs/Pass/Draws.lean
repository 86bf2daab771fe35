import Mathlib
import MarkerLattice.Proofs.Lattice.Listing
import MarkerLattice.Proofs.Pass.Exclusive
import MarkerLattice.Proofs.Pattern.Places
import MarkerLattice.Proofs.Random.Draws

/-! How far a pass goes in its stream. Every placement costs one draw whatever
becomes of it, so the position of the stream after a pass is told by the window and
by the places of the rules. -/
namespace MarkerLattice

open RandomStream (Counted skip fraction)

namespace Tally

def settled (t : Tally) : ℕ :=
  t.gatedOut + t.overlapRejected + t.heightRejected + t.conditionFailed + t.executed

theorem settled_gate (t : Tally) : t.gate.settled = t.settled + 1 := by
  simp only [settled, gate]
  omega

theorem settled_record (t : Tally) (outcome : Outcome) :
    (t.record outcome).settled = t.settled + 1 := by
  cases outcome <;> simp only [settled, record] <;> omega

theorem candidates_record (t : Tally) (outcome : Outcome) :
    (t.record outcome).candidates = t.candidates := by
  cases outcome <;> rfl

end Tally

namespace PassRules

variable {σ τ : Type} [RandomStream σ] [RandomStream τ] (rules : PassRules)
  (probability : Binary32)

theorem tryAll_skip (ps : List Placement) (b : Board) (tally : Tally) (s : σ) :
    (rules.tryAll probability ps b tally s).2.2 = skip^[ps.length] s := by
  induction ps generalizing b tally s with
  | nil => rfl
  | cons p rest ih =>
    rw [tryAll]
    dsimp only
    split
    · exact ih _ _ _
    · exact ih _ _ _

theorem tryAll_congr {s : σ} {t : τ} (h : fraction s = fraction t) (ps : List Placement)
    (b : Board) (tally : Tally) :
    (rules.tryAll probability ps b tally s).1 = (rules.tryAll probability ps b tally t).1 ∧
      (rules.tryAll probability ps b tally s).2.1 =
        (rules.tryAll probability ps b tally t).2.1 := by
  induction ps generalizing b tally s t with
  | nil => exact ⟨rfl, rfl⟩
  | cons p rest ih =>
    have draw : (RandomStream.nextFraction s).1 = (RandomStream.nextFraction t).1 :=
      congrFun h 0
    rw [tryAll, tryAll]
    dsimp only
    rw [draw]
    split
    · exact ih (RandomStream.fraction_skip_congr h 1) _ _
    · exact ih (RandomStream.fraction_skip_congr h 1) _ _

theorem tally_tryAll (ps : List Placement) (b : Board) (tally : Tally) (s : σ) :
    (rules.tryAll probability ps b tally s).2.1.candidates = tally.candidates ∧
      (rules.tryAll probability ps b tally s).2.1.settled = tally.settled + ps.length := by
  induction ps generalizing b tally s with
  | nil => exact ⟨rfl, rfl⟩
  | cons p rest ih =>
    rw [tryAll, List.length_cons]
    dsimp only
    split
    · obtain ⟨candidates, settled⟩ := ih b tally.gate (RandomStream.nextFraction s).2
      rw [candidates, settled, Tally.settled_gate]
      exact ⟨rfl, by omega⟩
    · obtain ⟨candidates, settled⟩ := ih (rules.tryPlacement b p).2
        (tally.record (rules.tryPlacement b p).1) (RandomStream.nextFraction s).2
      rw [candidates, settled, Tally.settled_record, Tally.candidates_record]
      exact ⟨rfl, by omega⟩

end PassRules

namespace Stage

variable {σ τ : Type} [RandomStream σ] [RandomStream τ] (stage : Stage) (shuffle : Bool)

/-- One fraction for each placement and one for each swap of the shuffle. -/
def draws : ℕ :=
  stage.placements.length + if shuffle then stage.placements.length - 1 else 0

theorem order_skip (s : σ) : (stage.order shuffle s).2 =
    skip^[if shuffle then stage.placements.length - 1 else 0] s := by
  cases shuffle with
  | false => rfl
  | true => exact RandomStream.shuffle_skip stage.placements.toArray s

theorem order_congr {s : σ} {t : τ} (h : fraction s = fraction t) :
    (stage.order shuffle s).1 = (stage.order shuffle t).1 := by
  cases shuffle with
  | false => rfl
  | true => exact congrArg Array.toList (RandomStream.shuffle_congr h stage.placements.toArray)

theorem length_order (s : σ) : (stage.order shuffle s).1.length = stage.placements.length :=
  (stage.order_perm shuffle s).length_eq

variable (frame : Pose Binary32) (probability : Binary32)

theorem run_skip (s : σ) :
    (stage.run frame probability shuffle s).2 = skip^[stage.draws shuffle] s := by
  rw [draws, Function.iterate_add_apply, ← order_skip, ← stage.length_order shuffle s]
  exact stage.rules.tryAll_skip _ _ _ _ _

theorem run_congr {s : σ} {t : τ} (h : fraction s = fraction t) :
    (stage.run frame probability shuffle s).1 = (stage.run frame probability shuffle t).1 := by
  have rest : fraction (stage.order shuffle s).2 = fraction (stage.order shuffle t).2 := by
    rw [order_skip, order_skip]
    exact RandomStream.fraction_skip_congr h _
  obtain ⟨board, tally⟩ := stage.rules.tryAll_congr probability rest (stage.order shuffle t).1
    stage.board (.ofCandidates (stage.order shuffle t).1.length)
  simp only [run]
  rw [stage.order_congr shuffle h, board, tally]

theorem tally_run (s : σ) :
    (stage.run frame probability shuffle s).1.tally.candidates = stage.placements.length ∧
      (stage.run frame probability shuffle s).1.tally.settled = stage.placements.length := by
  obtain ⟨candidates, settled⟩ := stage.rules.tally_tryAll probability
    (stage.order shuffle s).1 stage.board (.ofCandidates (stage.order shuffle s).1.length)
    (stage.order shuffle s).2
  have none : (Tally.ofCandidates (stage.order shuffle s).1.length).settled = 0 := rfl
  rw [none, Nat.zero_add] at settled
  have length := stage.length_order shuffle s
  exact ⟨candidates.trans length, settled.trans length⟩

end Stage

theorem GridSettings.margin_nonneg (settings : GridSettings) : 0 ≤ settings.margin := by
  unfold margin
  split <;> omega

def Layer.places (layer : Layer) : Set (Offset × SubCell) := layer.pattern.elim ∅ Pattern.places

namespace Orientation

end Orientation

namespace Processor

variable {σ : Type} [RandomStream σ] {d : Processor} {layer : Layer} {ms : List Marker}
  {stage : Stage}

def floorTile : Marker := ⟨0, "Floor", .ofPosition ⟨.half, .half, .zero⟩⟩

end Processor

end MarkerLattice
