import Mathlib
import MarkerLattice.Proofs.Binary32.Order
import MarkerLattice.Proofs.Pass.Disjoint
import MarkerLattice.Proofs.Pass.Draws
import MarkerLattice.Proofs.Random.Congruential

/-! Placements that share no slot do not see each other, so tries of them commute up to
identifiers. A layer all of whose placements are apart gives the same result in every
order. -/
namespace MarkerLattice

open RandomStream (fraction skip)

theorem Tally.record_right_comm (t : Tally) (o o' : Outcome) :
    (t.record o).record o' = (t.record o').record o := by
  cases o <;> cases o' <;> rfl

namespace Placement

/-- No slot is under rules of both placements. -/
def Apart (p p' : Placement) : Prop :=
  ∀ r ∈ p.orientation.rules, ∀ r' ∈ p'.orientation.rules, p.slot r ≠ p'.slot r'

theorem Apart.symm {p p' : Placement} (h : p.Apart p') : p'.Apart p :=
  fun r hr r' hr' same => h r' hr' r hr same.symm

theorem Apart.disjoint_touched {p p' : Placement} (h : p.Apart p') (b : Board) :
    Disjoint (p.touched b) (p'.touched b) :=
  Placement.disjoint_touched fun r hr r' hr' same => absurd same (h r hr r' hr')

@[simp] theorem sights_eraseIds (p : Placement) (b : Board) :
    p.sights b.eraseIds = p.sights b := by
  simp only [sights, Board.eraseIds, Scene.heights, Scene.markers_eraseIds, MarkerList.eraseIds,
    List.map_map]
  rfl

/-- Placements of one orientation whose rules stand on different parts of a cell share
no slot: a slot tells the rule and with it the base. -/
theorem apart_of_mem_around {o : Orientation} {w : Window}
    (parts : (o.rules.map PlacedRule.part).Nodup) {p p' : Placement} (hp : p ∈ around o w)
    (hp' : p' ∈ around o w) (ne : p ≠ p') : p.Apart p' := by
  intro r hr r' hr' same
  have turned := orientation_of_mem_around hp
  have turned' := orientation_of_mem_around hp'
  rw [turned] at hr
  rw [turned'] at hr'
  obtain rfl : r = r' :=
    List.inj_on_of_nodup_map parts hr hr' (congrArg Slot.part same)
  have coord : p.base + r.coord = p'.base + r.coord := congrArg Slot.coord same
  have x : p.base.x + r.coord.x = p'.base.x + r.coord.x := congrArg Coord.x coord
  have y : p.base.y + r.coord.y = p'.base.y + r.coord.y := congrArg Coord.y coord
  have base : p.base = p'.base := Coord.ext (by omega) (by omega)
  apply ne
  cases p
  cases p'
  simp_all

end Placement

namespace PassRules

variable (rules : PassRules) {p p' : Placement} (b : Board)

theorem tryPlacement_eraseIds (p : Placement) :
    (rules.tryPlacement b.eraseIds p).1 = (rules.tryPlacement b p).1 ∧
      (rules.tryPlacement b.eraseIds p).2.eraseIds = (rules.tryPlacement b p).2.eraseIds := by
  have outcome : (rules.tryPlacement b.eraseIds p).1 = (rules.tryPlacement b p).1 :=
    rules.outcome_congr (p.sights_eraseIds b) rules.levels
  refine ⟨outcome, ?_⟩
  rw [snd_tryPlacement, snd_tryPlacement, outcome]
  split
  · rw [eraseIds_foldl_runRule, eraseIds_foldl_runRule, Board.eraseIds_eraseIds]
  · exact b.eraseIds_eraseIds

/-- Tries of placements that share no slot commute: neither changes the outcome of the
other, and the boards are the same up to identifiers. -/
theorem tryPlacement_comm (apart : p.Apart p') :
    (rules.tryPlacement (rules.tryPlacement b p).2 p').1 = (rules.tryPlacement b p').1 ∧
      (rules.tryPlacement (rules.tryPlacement b p).2 p').2.eraseIds =
        (rules.tryPlacement (rules.tryPlacement b p').2 p).2.eraseIds := by
  have disjoint := apart.disjoint_touched b
  have scene : (rules.tryBoth b p p').scene.eraseIds = (rules.tryBoth b p' p).scene.eraseIds :=
    Scene.eraseIds_eq (by simp [tryBoth]) (by simp [tryBoth]) (nextId_swap disjoint)
      fun slot => (alike_swap disjoint slot).eraseIds
  exact ⟨outcome_swap disjoint, congrArg₂ Board.mk scene (occupancy_swap disjoint)⟩

def visit (x : Board × Tally) (p : Placement) : Board × Tally :=
  ((rules.tryPlacement x.1 p).2.eraseIds, x.2.record (rules.tryPlacement x.1 p).1)

theorem visit_eraseIds (tally : Tally) (p : Placement) : rules.visit (b.eraseIds, tally) p =
    ((rules.tryPlacement b p).2.eraseIds, tally.record (rules.tryPlacement b p).1) := by
  obtain ⟨outcome, after⟩ := rules.tryPlacement_eraseIds b p
  rw [visit, outcome, after]

theorem visit_right_comm (apart : p.Apart p') (x : Board × Tally) :
    rules.visit (rules.visit x p) p' = rules.visit (rules.visit x p') p := by
  obtain ⟨outcome, board⟩ := rules.tryPlacement_comm x.1 apart
  obtain ⟨outcome', -⟩ := rules.tryPlacement_comm x.1 apart.symm
  rw [visit.eq_1 rules x, visit.eq_1 rules x, visit_eraseIds, visit_eraseIds, outcome, outcome',
    board, Tally.record_right_comm]

theorem foldl_visit_perm {ps ps' : List Placement} (perm : ps.Perm ps')
    (apart : ∀ p ∈ ps, ∀ p' ∈ ps, p ≠ p' → p.Apart p') (x : Board × Tally) :
    ps.foldl rules.visit x = ps'.foldl rules.visit x := by
  apply perm.foldl_eq'
  intro p hp p' hp' y
  by_cases same : p = p'
  · rw [same]
  · exact rules.visit_right_comm (apart p hp p' hp' same) y

theorem tryAll_eq_foldl_visit {σ : Type} [RandomStream σ] {probability : Binary32} {s : σ}
    (drawn : ∀ k, probability.le (fraction s k) = false) (ps : List Placement) (tally : Tally) :
    ((rules.tryAll probability ps b tally s).1.eraseIds,
      (rules.tryAll probability ps b tally s).2.1) = ps.foldl rules.visit (b.eraseIds, tally) := by
  induction ps generalizing b tally s with
  | nil => rfl
  | cons p rest ih =>
    have first : probability.le (RandomStream.nextFraction s).1 = false := drawn 0
    have later : ∀ k, probability.le (fraction (skip s) k) = false := fun k => drawn (k + 1)
    rw [List.foldl_cons, visit_eraseIds, ← ih _ later]
    simp only [tryAll, first]
    rfl

end PassRules

namespace Stage

variable {σ τ : Type} [RandomStream σ] [RandomStream τ]

theorem placements_ofPattern_still (pattern : Pattern) (settings : GridSettings)
    (overlaps : Bool) (cellSize : Vec3 Binary32) (ms : List Marker) :
    (ofPattern pattern settings false overlaps cellSize ms).placements =
      Placement.around (.ofPattern pattern)
        (ofPattern pattern settings false overlaps cellSize ms).board.scene.window :=
  List.flatMap_singleton ..

theorem run_eq_of_apart {stage : Stage}
    (apart : ∀ p ∈ stage.placements, ∀ p' ∈ stage.placements, p ≠ p' → p.Apart p')
    {probability : Binary32} {s : σ} {t : τ} (hs : ∀ k, probability.le (fraction s k) = false)
    (ht : ∀ k, probability.le (fraction t k) = false) (frame : Pose Binary32)
    (shuffle shuffle' : Bool) :
    (stage.run frame probability shuffle s).1 = (stage.run frame probability shuffle' t).1 := by
  -- Either order is a permutation of the placements, and visits do not mind it.
  have perm := stage.order_perm shuffle s
  have perm' := stage.order_perm shuffle' t
  have later (k : ℕ) : probability.le (fraction (stage.order shuffle s).2 k) = false := by
    rw [order_skip, RandomStream.fraction_skip]
    exact hs _
  have later' (k : ℕ) : probability.le (fraction (stage.order shuffle' t).2 k) = false := by
    rw [order_skip, RandomStream.fraction_skip]
    exact ht _
  have visited := stage.rules.tryAll_eq_foldl_visit stage.board later
    (stage.order shuffle s).1 (.ofCandidates stage.placements.length)
  have visited' := stage.rules.tryAll_eq_foldl_visit stage.board later'
    (stage.order shuffle' t).1 (.ofCandidates stage.placements.length)
  rw [← stage.rules.foldl_visit_perm perm.symm apart] at visited
  rw [← stage.rules.foldl_visit_perm perm'.symm apart, ← visited, Prod.mk.injEq] at visited'
  simp only [run, length_order]
  rw [Board.flatten_of_eraseIds visited'.1, visited'.2]

end Stage

namespace Processor

variable {σ τ : Type} [RandomStream σ] [RandomStream τ] (d : Processor) {layer : Layer}
  {pattern : Pattern}

theorem apart_of_mem_placements (authored : layer.pattern = some pattern)
    (still : layer.rotate = false) (parts : (pattern.rules.map Rule.part).Nodup)
    {ms : List Marker} {stage : Stage} (h : d.stage? layer ms = some stage) :
    ∀ p ∈ stage.placements, ∀ p' ∈ stage.placements, p ≠ p' → p.Apart p' := by
  obtain ⟨settings, rfl⟩ := exists_settings_of_stage? authored h
  have parts' : ((Orientation.ofPattern pattern).rules.map PlacedRule.part).Nodup := by
    rw [Orientation.ofPattern, Orientation.rules_ofRules, List.map_map]
    exact parts
  rw [still, Stage.placements_ofPattern_still]
  exact fun p hp p' hp' ne => Placement.apart_of_mem_around parts' hp hp' ne

/-- In a layer that is not turned, with at most one rule for each part of a cell, no two
placements share a slot. If each is tried for certain, then neither the stream nor the
order makes a difference to the markers or to the counts. -/
theorem process?_unordered (authored : layer.pattern = some pattern)
    (still : layer.rotate = false) (parts : (pattern.rules.map Rule.part).Nodup)
    (certain : Binary32.one.le layer.probability = true) (ms : List Marker) {s : σ} {t : τ}
    (hs : ∀ k, (fraction s k).lt .one = true) (ht : ∀ k, (fraction t k).lt .one = true)
    (shuffle shuffle' : Bool) :
    (d.process? { layer with shuffle } ms s).map Prod.fst =
      (d.process? { layer with shuffle := shuffle' } ms t).map Prod.fst := by
  have same : d.stage? { layer with shuffle := shuffle' } ms =
      d.stage? { layer with shuffle } ms := rfl
  rw [process?_eq_run, process?_eq_run, same]
  cases h : d.stage? { layer with shuffle } ms with
  | none => rfl
  | some stage =>
    have apart := d.apart_of_mem_placements  authored still parts h
    exact congrArg some (Stage.run_eq_of_apart apart
      (fun k => Binary32.not_le_of_lt certain (hs k))
      (fun k => Binary32.not_le_of_lt certain (ht k)) d.frame shuffle shuffle')

def pavedStill : Layer := { paved with rotate := false }

theorem process?_unordered_paved :
    (upright.process? { pavedStill with shuffle := true } [] (Congruential.ofSeed 1)).map
        Prod.fst =
      (upright.process? { pavedStill with shuffle := false } [] (Congruential.ofSeed 2)).map
        Prod.fst ∧
    (upright.process? { pavedStill with shuffle := true } []
      (Congruential.ofSeed 1)).isSome = true := by
  have authored : pavedStill.pattern = some ⟨[tile, pillar]⟩ := rfl
  have parts : ([tile, pillar].map Rule.part).Nodup := by decide
  have certain : Binary32.one.le pavedStill.probability = true := by decide +kernel
  have same := process?_unordered upright authored rfl parts certain []
    (Congruential.fraction_lt_one (.ofSeed 1)) (Congruential.fraction_lt_one (.ofSeed 2)) true false
  refine ⟨same, ?_⟩
  have effect : Pattern.hasEffect ⟨[tile, pillar]⟩ = true := by decide +kernel
  have authored' : Layer.pattern { pavedStill with shuffle := true } = some ⟨[tile, pillar]⟩ := rfl
  rw [process?_eq_run, stage?_of_pattern authored', if_pos effect]
  rfl

end Processor

end MarkerLattice
