import Mathlib
import MarkerLattice.Proofs.Lattice.Identifier
import MarkerLattice.Proofs.Pass.Attempts
import MarkerLattice.Proofs.Pass.Heights
import MarkerLattice.Proofs.Pattern.Reorder
import MarkerLattice.Random.Congruential

/-! The order of the rules of a pattern does not matter as long as they stand on
distinct slots. Checks look at all rules of a placement alike. The runs of two
rules on different slots commute up to identifiers, which flattening hides. -/
namespace MarkerLattice

section Folds

variable {α β γ : Type} {f : β → α → β} {g : β → γ → β}

theorem foldl_comm {xs : List α} {y : γ} (comm : ∀ b, ∀ x ∈ xs, g (f b x) y = f (g b y) x)
    (b : β) : g (xs.foldl f b) y = xs.foldl f (g b y) := by
  induction xs generalizing b with
  | nil => rfl
  | cons x rest ih =>
    obtain ⟨own, others⟩ := List.forall_mem_cons.mp fun x hx b => comm b x hx
    rw [List.foldl_cons, List.foldl_cons, ih fun b x hx => others x hx b, own]

theorem foldl_comm_foldl {xs : List α} {ys : List γ}
    (comm : ∀ b, ∀ x ∈ xs, ∀ y ∈ ys, g (f b x) y = f (g b y) x) (b : β) :
    ys.foldl g (xs.foldl f b) = xs.foldl f (ys.foldl g b) := by
  induction ys generalizing b with
  | nil => rfl
  | cons y rest ih =>
    have past : g (xs.foldl f b) y = xs.foldl f (g b y) :=
      foldl_comm (fun b x hx => comm b x hx y List.mem_cons_self) b
    rw [List.foldl_cons, List.foldl_cons, past,
      ih fun b x hx y hy => comm b x hx y (List.mem_cons_of_mem _ hy)]

end Folds

namespace Scene

variable (s : Scene) (levels : Levels) (stance stance' : Stance)

theorem eraseIds_performAll (effects : List Effect) :
    (s.performAll levels stance effects).eraseIds =
      effects.foldl (fun s e => (perform levels stance s e).eraseIds) s.eraseIds :=
  (List.foldl_hom eraseIds fun s e => (s.eraseIds_perform levels stance e).symm).symm

theorem eraseIds_performAll_comm (h : stance.slot ≠ stance'.slot) (es es' : List Effect) :
    ((s.performAll levels stance es).performAll levels stance' es').eraseIds =
      ((s.performAll levels stance' es').performAll levels stance es).eraseIds := by
  simp only [eraseIds_performAll]
  apply foldl_comm_foldl
  intro s e _ e' _
  rw [← eraseIds_perform, ← eraseIds_perform, eraseIds_perform_comm _ _ _ _ _ _ h]

end Scene

namespace Board

def eraseIds (b : Board) : Board := { b with scene := b.scene.eraseIds }

@[simp] theorem eraseIds_eraseIds (b : Board) : b.eraseIds.eraseIds = b.eraseIds := by
  simp [eraseIds]

theorem scene_of_eraseIds {b b' : Board} (h : b.eraseIds = b'.eraseIds) :
    b.scene.eraseIds = b'.scene.eraseIds :=
  congrArg Board.scene h

theorem occupancy_of_eraseIds {b b' : Board} (h : b.eraseIds = b'.eraseIds) :
    b.occupancy = b'.occupancy := by
  have occupancy : b.eraseIds.occupancy = b'.eraseIds.occupancy := by rw [h]
  exact occupancy

theorem flatten_of_eraseIds {b b' : Board} (h : b.eraseIds = b'.eraseIds) :
    b.scene.flatten = b'.scene.flatten := by
  rw [← b.scene.flatten_eraseIds, scene_of_eraseIds h, Scene.flatten_eraseIds]

theorem contains_of_eraseIds {b b' : Board} (h : b.eraseIds = b'.eraseIds) :
    b.scene.contains = b'.scene.contains := by
  funext slot
  rw [← Scene.contains_eraseIds, scene_of_eraseIds h, Scene.contains_eraseIds]

end Board

namespace PassRules

variable (rules : PassRules) {p p' : Placement} (b : Board)

theorem eraseIds_runRule (p : Placement) (r : PlacedRule) :
    (rules.runRule p b r).eraseIds = (rules.runRule p b.eraseIds r).eraseIds := by
  have scene : (b.scene.performAll rules.levels (p.stance r) r.script.effects).eraseIds =
      (b.scene.eraseIds.performAll rules.levels (p.stance r) r.script.effects).eraseIds := by
    rw [Scene.eraseIds_performAll, Scene.eraseIds_performAll, Scene.eraseIds_eraseIds]
  simp only [Board.eraseIds, runRule, scene]

theorem eraseIds_foldl_runRule (p : Placement) (rs : List PlacedRule) :
    (rs.foldl (rules.runRule p) b).eraseIds =
      rs.foldl (fun b r => (rules.runRule p b r).eraseIds) b.eraseIds :=
  (List.foldl_hom Board.eraseIds fun b r => (rules.eraseIds_runRule b p r).symm).symm

theorem eraseIds_runRule_comm {r r' : PlacedRule} (h : p.slot r ≠ p'.slot r') :
    (rules.runRule p' (rules.runRule p b r) r').eraseIds =
      (rules.runRule p (rules.runRule p' b r') r).eraseIds := by
  have scene := b.scene.eraseIds_performAll_comm rules.levels (p.stance r) (p'.stance r') h
    r.script.effects r'.script.effects
  have occupancy : (rules.runRule p' (rules.runRule p b r) r').occupancy =
      (rules.runRule p (rules.runRule p' b r') r).occupancy := by
    simp only [runRule]
    split
    · split
      · exact Occupancy.mark_comm _ _ _
      · rfl
    · rfl
  exact congrArg₂ Board.mk scene occupancy

/-- Rules that stand on distinct slots run in any order. -/
theorem eraseIds_foldl_perm {p : Placement} {rs rs' : List PlacedRule} (h : rs.Perm rs')
    (apart : ∀ r ∈ rs, ∀ r' ∈ rs, r ≠ r' → p.slot r ≠ p.slot r') :
    (rs.foldl (rules.runRule p) b).eraseIds = (rs'.foldl (rules.runRule p) b).eraseIds := by
  rw [eraseIds_foldl_runRule, eraseIds_foldl_runRule]
  apply h.foldl_eq'
  intro r hr r' hr' c
  by_cases same : r = r'
  · rw [same]
  · rw [← eraseIds_runRule, ← eraseIds_runRule,
      rules.eraseIds_runRule_comm c (apart r hr r' hr' same)]

variable {b b' : Board}

theorem trackedLevels_eraseIds (p : Placement) :
    rules.trackedLevels b.eraseIds p = rules.trackedLevels b p := by
  simp only [trackedLevels, Board.eraseIds, Scene.markers_eraseIds, MarkerList.eraseIds,
    List.filter_map, List.map_map]
  rfl

theorem overlapsAt_reordered (h : p.Reordered p') (hb : b.eraseIds = b'.eraseIds) :
    overlapsAt b p = overlapsAt b' p' := by
  rw [overlapsAt, overlapsAt, h.slot, Board.occupancy_of_eraseIds hb]
  exact h.orientation.rules.any_eq

theorem conditionsHold_reordered (h : p.Reordered p') (hb : b.eraseIds = b'.eraseIds) :
    conditionsHold b p = conditionsHold b' p' := by
  rw [conditionsHold, conditionsHold, h.slot, Board.contains_of_eraseIds hb]
  exact h.orientation.rules.all_eq

theorem heightsAgree_reordered (h : p.Reordered p') (hb : b.eraseIds = b'.eraseIds) :
    rules.heightsAgree b p = rules.heightsAgree b' p' := by
  have tracked : (rules.trackedLevels b p).Perm (rules.trackedLevels b' p') := by
    rw [← trackedLevels_eraseIds, hb, trackedLevels_eraseIds, trackedLevels, trackedLevels,
      h.slot]
    exact h.orientation.rules.flatMap_right _
  rw [Bool.eq_iff_iff, heightsAgree_iff, heightsAgree_iff]
  exact agree_congr fun _ => tracked.mem_iff

theorem runRule_reordered (h : p.Reordered p') : rules.runRule p = rules.runRule p' := by
  funext b r
  simp only [runRule, Placement.stance, h.slot, h.orientation.angle, h.orientation.quarterTurns]

theorem tryPlacement_reordered (h : p.Reordered p') (hb : b.eraseIds = b'.eraseIds) :
    (rules.tryPlacement b p).1 = (rules.tryPlacement b' p').1 ∧
      (rules.tryPlacement b p).2.eraseIds = (rules.tryPlacement b' p').2.eraseIds := by
  have run : (p.orientation.rules.foldl (rules.runRule p) b).eraseIds =
      (p'.orientation.rules.foldl (rules.runRule p') b').eraseIds := by
    rw [rules.eraseIds_foldl_perm b h.orientation.rules fun r hr r' hr' => h.slot_ne hr hr',
      eraseIds_foldl_runRule, hb, ← eraseIds_foldl_runRule, rules.runRule_reordered h]
  unfold tryPlacement
  rw [overlapsAt_reordered h hb, rules.heightsAgree_reordered h hb, conditionsHold_reordered h hb]
  split
  · exact ⟨rfl, hb⟩
  · split
    · exact ⟨rfl, hb⟩
    · split
      · exact ⟨rfl, hb⟩
      · exact ⟨rfl, run⟩

theorem tryAll_reordered {σ : Type} [RandomStream σ] (probability : Binary32)
    {ps ps' : List Placement} (h : List.Forall₂ Placement.Reordered ps ps')
    (hb : b.eraseIds = b'.eraseIds) (tally : Tally) (s : σ) :
    (rules.tryAll probability ps b tally s).1.eraseIds =
        (rules.tryAll probability ps' b' tally s).1.eraseIds ∧
      (rules.tryAll probability ps b tally s).2 =
        (rules.tryAll probability ps' b' tally s).2 := by
  induction h generalizing b b' tally s with
  | nil => exact ⟨hb, rfl⟩
  | cons head _ ih =>
    obtain ⟨outcome, after⟩ := rules.tryPlacement_reordered head hb
    simp only [tryAll]
    split
    · exact ih hb _ _
    · rw [outcome]
      exact ih after _ _

end PassRules

namespace Stage

structure Reordered (stage stage' : Stage) : Prop where
  rules : stage.rules = stage'.rules
  board : stage.board = stage'.board
  orientations : List.Forall₂ (fun o o' => o.Reordered o' ∧ o.Distinct) stage.orientations
    stage'.orientations

namespace Reordered

variable {stage stage' : Stage}

theorem placements (h : stage.Reordered stage') :
    List.Forall₂ Placement.Reordered stage.placements stage'.placements := by
  rw [Stage.placements, Stage.placements, h.board]
  exact List.rel_flatMap h.orientations fun o o' related =>
    Placement.forall₂_around related.1 related.2 _

theorem order {σ : Type} [RandomStream σ] (h : stage.Reordered stage') (shuffle : Bool)
    (s : σ) : List.Forall₂ Placement.Reordered (stage.order shuffle s).1
        (stage'.order shuffle s).1 ∧
      (stage.order shuffle s).2 = (stage'.order shuffle s).2 := by
  unfold Stage.order
  split
  · exact RandomStream.shuffle_forall₂ h.placements s
  · exact ⟨h.placements, rfl⟩

theorem run {σ : Type} [RandomStream σ] (h : stage.Reordered stage') (frame : Pose Binary32)
    (probability : Binary32) (shuffle : Bool) (s : σ) :
    stage.run frame probability shuffle s = stage'.run frame probability shuffle s := by
  obtain ⟨placements, stream⟩ := h.order shuffle s
  obtain ⟨board, rest⟩ := stage.rules.tryAll_reordered probability
    placements (b := stage.board) rfl (.ofCandidates (stage.order shuffle s).1.length)
    (stage.order shuffle s).2
  simp only [Stage.run]
  rw [← h.rules, ← h.board, ← placements.length_eq, ← stream]
  rw [Board.flatten_of_eraseIds board, congrArg Prod.fst rest, congrArg Prod.snd rest]

end Reordered

theorem reordered_ofPattern {pattern pattern' : Pattern}
    (perm : pattern.rules.Perm pattern'.rules)
    (distinct : (pattern.rules.map fun r => (r.offset, r.part)).Nodup)
    (near : ∀ r ∈ pattern.rules,
      r.offset.x.toInt.natAbs ≤ 2 ^ 20 ∧ r.offset.y.toInt.natAbs ≤ 2 ^ 20)
    (settings : GridSettings) (rotate overlaps : Bool) (cellSize : Vec3 Binary32)
    (ms : List Marker) : Reordered
      (ofPattern pattern settings rotate overlaps cellSize ms)
      (ofPattern pattern' settings rotate overlaps cellSize ms) where
  rules := rfl
  board := rfl
  orientations := by
    have turnings : (if rotate then 3 else 0) ≤ 3 := by cases rotate <;> decide
    have within : (Orientation.ofPattern pattern).Within (2 ^ 20) := by
      unfold Orientation.Within Orientation.ofPattern
      rw [Orientation.rules_ofRules, List.forall_mem_map]
      exact near
    exact Orientation.forall₂_turns _ (Orientation.reordered_ofRules (perm.map _) _ _)
      (Orientation.distinct_ofPattern distinct) within (by omega)

end Stage

namespace Processor

variable {σ : Type} [RandomStream σ] (d : Processor) (layer : Layer)
  {pattern pattern' : Pattern}

/-- The order of the rules of a pattern changes nothing, as long as no two rules
share a place and all lie near the origin. -/
theorem process?_perm (authored : layer.pattern = some pattern)
    (perm : pattern.rules.Perm pattern'.rules)
    (distinct : (pattern.rules.map fun r => (r.offset, r.part)).Nodup)
    (near : ∀ r ∈ pattern.rules,
      r.offset.x.toInt.natAbs ≤ 2 ^ 20 ∧ r.offset.y.toInt.natAbs ≤ 2 ^ 20)
    (ms : List Marker) (s : σ) :
    d.process? { layer with pattern := some pattern' } ms s = d.process? layer ms s := by
  have effect : pattern'.hasEffect = pattern.hasEffect := perm.symm.any_eq
  have settings : Layer.gridSettings? { layer with pattern := some pattern' } =
      layer.gridSettings? := rfl
  rw [process?_eq_run, process?_eq_run, stage?_of_pattern authored, stage?_of_pattern rfl,
    effect, settings]
  split
  · cases layer.gridSettings? with
    | none => rfl
    | some settings =>
      have same := Stage.reordered_ofPattern perm distinct near settings layer.rotate
        layer.overlaps d.cellSize (ms.map (.mapPose d.frame.inverse))
      exact congrArg some (same.run d.frame layer.probability layer.shuffle s).symm
  · rfl

def emitting (name : String) : Script :=
  let (emission, s) := Script.withEntries.createNode (.emitMarker ⟨name, [], []⟩)
  (s.setLink 1 Pin.defaultOutput .output (some ⟨emission, Pin.defaultInput⟩)).setLink
    emission Pin.defaultInput .input (some ⟨1, Pin.defaultOutput⟩)

def tile : Rule := ⟨⟨0, 0⟩, .ground, emitting "Tile", false⟩

def pillar : Rule := ⟨⟨1, 0⟩, .corner, emitting "Pillar", false⟩

def paved : Layer := { Layer.standard with pattern := some ⟨[tile, pillar]⟩ }

theorem process?_perm_paved :
    (mk .identity .one).process? { paved with pattern := some ⟨[pillar, tile]⟩ } []
        (Congruential.ofSeed 1) =
      (mk .identity .one).process? paved [] (Congruential.ofSeed 1) ∧
    ((mk .identity .one).process? paved [] (Congruential.ofSeed 1)).isSome = true := by
  have authored : paved.pattern = some ⟨[tile, pillar]⟩ := rfl
  have swapped : [tile, pillar].Perm [pillar, tile] := .swap _ _ _
  refine ⟨process?_perm _ paved authored swapped (by decide) (by decide) _ _, ?_⟩
  have effect : Pattern.hasEffect ⟨[tile, pillar]⟩ = true := by decide +kernel
  rw [process?_eq_run, stage?_of_pattern authored, if_pos effect]
  rfl

end Processor

end MarkerLattice
