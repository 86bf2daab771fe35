import Mathlib
import MarkerLattice.Proofs.Lattice.Flood
import MarkerLattice.Proofs.Lattice.Listing
import MarkerLattice.Proofs.Lattice.Names
import MarkerLattice.Proofs.Pass.Provenance

/-! What a slot holds at every point of a pass: first what is left of the markers that
belong there, then what was emitted there, without repetitions. A pass is a sequence of
effects, and one effect writes to one slot only, so one step settles all points. -/
namespace MarkerLattice

namespace MarkerList

/-- No marker repeats an earlier one. -/
def Distinct (l : MarkerList) : Prop := l.Pairwise fun m n => m.isSame n = false

theorem Distinct.add {l : MarkerList} (h : l.Distinct) (m : Marker) : (l.add m).Distinct := by
  unfold MarkerList.add
  split
  · exact h
  next unlike =>
    refine List.pairwise_append.mpr ⟨h, List.pairwise_singleton _ _, fun n hn m' hm' => ?_⟩
    obtain rfl := List.mem_singleton.mp hm'
    simp only [List.any_eq_true, not_exists, not_and] at unlike
    exact Bool.eq_false_iff.mpr (unlike n hn)

theorem Distinct.change {l : MarkerList} (h : l.Distinct) (e : Effect) (id : Int32)
    (pose : Emission → Pose Binary32) : Distinct (e.change id pose l) := by
  cases e with
  | emit e => exact h.add _
  | remove name => exact h.sublist List.filter_sublist

theorem Distinct.foldl_add {l : MarkerList} (h : l.Distinct) (ms : List Marker) :
    Distinct (ms.foldl MarkerList.add l) :=
  List.foldlRecOn ms _ h fun _ distinct m _ => distinct.add m

theorem foldl_add_sublist (l : MarkerList) (ms : List Marker) :
    (ms.foldl MarkerList.add l).Sublist (l ++ ms) := by
  induction ms generalizing l with
  | nil => simp
  | cons m rest ih =>
    refine (ih (l.add m)).trans ?_
    rw [← List.singleton_append, ← List.append_assoc]
    refine List.Sublist.append_right ?_ rest
    rcases add_eq l m with same | grown
    · rw [same]
      exact List.sublist_append_left l [m]
    · rw [grown]

end MarkerList

/-- One effect of a run, and how the rule stands that has it. -/
structure Deed where
  stance : Stance
  effect : Effect

namespace Scene

def after (s : Scene) (levels : Levels) (deeds : List Deed) : Scene :=
  deeds.foldl (fun s deed => s.perform levels deed.stance deed.effect) s

theorem after_append (s : Scene) (levels : Levels) (deeds deeds' : List Deed) :
    s.after levels (deeds ++ deeds') = (s.after levels deeds).after levels deeds' :=
  List.foldl_append

theorem after_concat (s : Scene) (levels : Levels) (deeds : List Deed) (deed : Deed) :
    s.after levels (deeds ++ [deed]) =
      (s.after levels deeds).perform levels deed.stance deed.effect :=
  s.after_append levels deeds [deed]

@[simp] theorem window_after (s : Scene) (levels : Levels) (deeds : List Deed) :
    (s.after levels deeds).window = s.window :=
  List.foldlRecOn (motive := fun t : Scene => t.window = s.window) deeds _ rfl
    fun t ht deed _ => (t.window_perform levels deed.stance deed.effect).trans ht

@[simp] theorem cellSize_after (s : Scene) (levels : Levels) (deeds : List Deed) :
    (s.after levels deeds).cellSize = s.cellSize :=
  List.foldlRecOn (motive := fun t : Scene => t.cellSize = s.cellSize) deeds _ rfl
    fun t ht deed _ => (t.cellSize_perform levels deed.stance deed.effect).trans ht

/-- The marker is one that the emission can put on the slot of `s`: at the place of the
slot, on its level or as high as a marker that is there. -/
structure Emits (s : Scene) (levels : Levels) (slot : Slot) (e : Emission) (m : Marker) :
    Prop where
  name : m.name = e.name
  x : ∀ level, m.location.x = (slot.location s.cellSize level).x
  y : ∀ level, m.location.y = (slot.location s.cellSize level).y
  z : (∃ level, levels.slot? slot = some level ∧
      m.location.z = Binary32.ofInt level * s.cellSize.z) ∨
    ∃ n ∈ s.markers slot, m.location.z = n.location.z
  scale : m.pose.scale = .one

theorem emits_emittedPose (s : Scene) {levels : Levels} {stance : Stance} {level : ℤ}
    (inferred : levels.slot? stance.slot = some level) (e : Emission) (id : Int32) :
    s.Emits levels stance.slot e ⟨id, e.name, s.emittedPose levels stance e⟩ := by
  cases copied : (s.markers stance.slot).firstNamed? e.heightFrom with
  | none =>
    refine ⟨rfl, fun _ => ?_, fun _ => ?_, .inl ⟨level, inferred, ?_⟩, rfl⟩
    all_goals simp only [Marker.location, emittedPose, copied, inferred]
    all_goals rfl
  | some n =>
    refine ⟨rfl, fun _ => ?_, fun _ => ?_, .inr ⟨n, List.mem_of_find?_eq_some copied, ?_⟩, rfl⟩
    all_goals simp only [Marker.location, emittedPose, copied]
    all_goals rfl

/-- What a slot holds after some deeds on `s`: some of the markers that were there, then
emitted ones, each with the deed that put it there. -/
structure Holds (s : Scene) (levels : Levels) (deeds : List Deed) (slot : Slot)
    (l old new : MarkerList) : Prop where
  parts : l = old ++ new
  kept : old.Sublist (s.markers slot)
  emitted : ∀ m ∈ new, ∃ before stance e, before ++ [⟨stance, .emit e⟩] <+: deeds ∧
    stance.slot = slot ∧ (s.after levels before).Emits levels slot e m

namespace Holds

variable {s : Scene} {levels : Levels} {deeds : List Deed} {slot : Slot}
  {l old new : MarkerList}

theorem concat (h : Holds s levels deeds slot l old new) (deed : Deed) :
    Holds s levels (deeds ++ [deed]) slot l old new where
  parts := h.parts
  kept := h.kept
  emitted m hm := by
    obtain ⟨before, stance, e, pre, place⟩ := h.emitted m hm
    exact ⟨before, stance, e, pre.trans (List.prefix_append _ _), place⟩

theorem remove (h : Holds s levels deeds slot l old new) (name : String) :
    Holds s levels deeds slot (l.remove name) (old.remove name) (new.remove name) where
  parts := by rw [h.parts, MarkerList.remove, List.filter_append]; rfl
  kept := List.filter_sublist.trans h.kept
  emitted m hm := h.emitted m (List.mem_of_mem_filter hm)

theorem emit {stance : Stance} {e : Emission} {m : Marker}
    (h : Holds s levels deeds stance.slot l old new)
    (emits : (s.after levels deeds).Emits levels stance.slot e m) :
    ∃ new', Holds s levels (deeds ++ [⟨stance, .emit e⟩]) stance.slot (l.add m) old new' := by
  have later := h.concat ⟨stance, .emit e⟩
  unfold MarkerList.add
  split
  · exact ⟨new, later⟩
  · refine ⟨new ++ [m], by rw [h.parts, List.append_assoc], h.kept, fun n hn => ?_⟩
    rcases List.mem_append.mp hn with earlier | last
    · exact later.emitted n earlier
    · obtain rfl := List.mem_singleton.mp last
      exact ⟨deeds, stance, e, List.prefix_rfl, rfl, emits⟩

end Holds

variable {s : Scene} {levels : Levels}

/-- What one effect preserves, and so every sequence of them. -/
theorem holds_after (inferred : ∀ slot, s.window.contains slot.coord = true →
      ∃ level, levels.slot? slot = some level) (deeds : List Deed) (slot : Slot) :
    ∃ old new, Holds s levels deeds slot ((s.after levels deeds).markers slot) old new := by
  induction deeds using List.reverseRecOn with
  | nil => exact ⟨s.markers slot, [], by simp [after], .refl _, by simp⟩
  | append_singleton deeds deed ih =>
    obtain ⟨old, new, ih⟩ := ih
    obtain ⟨stance, effect⟩ := deed
    rw [after_concat, markers_perform, window_after]
    split
    next own =>
      obtain ⟨rfl, inside⟩ := own
      cases effect with
      | emit e =>
        obtain ⟨level, hl⟩ := inferred _ inside
        obtain ⟨new', grown⟩ := ih.emit ((s.after levels deeds).emits_emittedPose hl e _)
        exact ⟨old, new', grown⟩
      | remove name => exact ⟨_, _, (ih.remove name).concat _⟩
    next => exact ⟨old, new, ih.concat _⟩

theorem distinct_after (h : ∀ slot, (s.markers slot).Distinct) (deeds : List Deed)
    (slot : Slot) : ((s.after levels deeds).markers slot).Distinct := by
  refine List.foldlRecOn (motive := fun t : Scene => (t.markers slot).Distinct) deeds _ (h slot)
    fun t ht deed _ => ?_
  rw [markers_perform]
  split
  · exact ht.change _ _ _
  · exact ht

section Filled

variable (cellSize : Vec3 Binary32) (ms : List Marker) (margin : ℤ) (slot : Slot)

theorem cellSize_ofMarkers : (ofMarkers cellSize ms margin).cellSize = cellSize :=
  List.foldlRecOn (motive := fun t : Scene => t.cellSize = cellSize) ms _ rfl
    fun _ same _ _ => same

theorem markers_ofMarkers_eq_foldl
    (inside : (ofMarkers cellSize ms margin).window.contains slot.coord = true) :
    (ofMarkers cellSize ms margin).markers slot =
      (ms.filter fun m => Slot.ofLocation cellSize.flat m.location = slot).foldl
        MarkerList.add [] := by
  rw [markers_ofMarkers _ _ _ inside, map_fst_entriesAt]

theorem distinct_ofMarkers : ((ofMarkers cellSize ms margin).markers slot).Distinct := by
  cases inside : (ofMarkers cellSize ms margin).window.contains slot.coord with
  | true =>
    rw [markers_ofMarkers_eq_foldl _ _ _ _ inside]
    exact MarkerList.Distinct.foldl_add .nil _
  | false =>
    rw [markers_of_not_contains inside]
    exact .nil

theorem ofMarkers_sublist : ((ofMarkers cellSize ms margin).markers slot).Sublist
    (ms.filter fun m => Slot.ofLocation cellSize.flat m.location = slot) := by
  cases inside : (ofMarkers cellSize ms margin).window.contains slot.coord with
  | true =>
    rw [markers_ofMarkers_eq_foldl _ _ _ _ inside]
    exact MarkerList.foldl_add_sublist [] _
  | false =>
    rw [markers_of_not_contains inside]
    exact List.nil_sublist _

end Filled

end Scene

namespace Attempt

def deeds (a : Attempt) : List Deed :=
  if a.outcome? = some .executed then
    a.placement.orientation.rules.flatMap fun r =>
      r.script.effects.map fun e => ⟨a.placement.stance r, e⟩
  else []

end Attempt

namespace PassRules

variable {σ : Type} [RandomStream σ] (rules : PassRules) (probability : Binary32)

theorem scene_foldl_runRule (p : Placement) (b : Board) (rs : List PlacedRule) :
    (rs.foldl (rules.runRule p) b).scene = b.scene.after rules.levels
      (rs.flatMap fun r => r.script.effects.map fun e => ⟨p.stance r, e⟩) := by
  induction rs generalizing b with
  | nil => rfl
  | cons r rest ih =>
    rw [List.foldl_cons, ih, List.flatMap_cons, Scene.after_append]
    congr 1
    rw [Scene.after, List.foldl_map]
    rfl

theorem scene_attempt (b : Board) (p : Placement) (draw : Binary32) :
    (rules.attempt probability b p draw).after.scene =
      b.scene.after rules.levels (rules.attempt probability b p draw).deeds := by
  by_cases executed : (rules.attempt probability b p draw).Executed
  · have outcome : (rules.attempt probability b p draw).outcome? = some .executed := executed
    rw [after_of_executed executed, scene_foldl_runRule, Attempt.deeds, if_pos outcome,
      placement_attempt]
  · have outcome : ¬ (rules.attempt probability b p draw).outcome? = some .executed := executed
    rw [after_of_not_executed executed, Attempt.deeds, if_neg outcome]
    rfl

theorem scene_boardAfter_take (ps : List Placement) (b : Board) (s : σ) (n : ℕ) :
    (boardAfter b ((rules.attempts probability ps b s).take n)).scene =
      b.scene.after rules.levels
        (((rules.attempts probability ps b s).take n).flatMap Attempt.deeds) := by
  induction ps generalizing b s n with
  | nil => simp [attempts, boardAfter, Scene.after]
  | cons p rest ih =>
    cases n with
    | zero => rfl
    | succ n =>
      simp only [attempts, List.take_succ_cons, boardAfter, List.flatMap_cons,
        Scene.after_append]
      rw [ih, scene_attempt]

end PassRules

namespace Stage

variable {σ : Type} [RandomStream σ]

def deeds (stage : Stage) (layer : Layer) (s : σ) : List Deed :=
  (stage.attempts layer s).flatMap Attempt.deeds

def sceneAfter (stage : Stage) (deeds : List Deed) : Scene :=
  stage.board.scene.after stage.rules.levels deeds

end Stage

namespace Processor

variable {σ : Type} [RandomStream σ] {d : Processor} {layer : Layer} {ms : List Marker}
  {stage : Stage}

/-- After any of its effects a pass has no repetition on any slot. A slot holds some of
the markers that belong to it by their location, and behind them markers that were emitted
on it, in place and on its level or as high as a marker that it held then. The effects are
those that lead from attempt to attempt, to what the pass returns. -/
theorem slots_hold (h : d.stage? layer ms = some stage) (s : σ) :
    (d.process? layer ms s).map Prod.fst =
        some (stage.resultOf d.frame (stage.attempts layer s)) ∧
      (∀ n, (PassRules.boardAfter stage.board ((stage.attempts layer s).take n)).scene =
        stage.sceneAfter (((stage.attempts layer s).take n).flatMap Attempt.deeds)) ∧
      ∀ deeds, deeds <+: stage.deeds layer s →
        (stage.sceneAfter deeds).cellSize = d.cellSize ∧
        ∀ slot, ((stage.sceneAfter deeds).markers slot).Pairwise
            (fun m n => m.isSame n = false) ∧
          ∃ old new, (stage.sceneAfter deeds).markers slot = old ++ new ∧
            old.Sublist ((ms.map (.mapPose d.frame.inverse)).filter fun m =>
              Slot.ofLocation d.cellSize.flat m.location = slot) ∧
            ∀ m ∈ new, ∃ before stance e, before ++ [⟨stance, .emit e⟩] <+: deeds ∧
              stance.slot = slot ∧
                (stage.sceneAfter before).Emits stage.rules.levels slot e m := by
  refine ⟨attempts_of_stage? h s ▸ process?_of_stage? h s,
    stage.rules.scene_boardAfter_take _ _ _ _, fun deeds _ => ?_⟩
  obtain ⟨pattern, settings, -, -, -, rfl⟩ := stage?_eq_some_iff.mp h
  have inferred (slot : Slot) (inside : (Scene.ofMarkers d.cellSize
      (ms.map (.mapPose d.frame.inverse)) settings.margin).window.contains slot.coord = true) :=
    (Scene.slot?_levels _ settings.edgeMode slot).trans (if_pos inside)
  refine ⟨(Scene.cellSize_after _ _ _).trans (Scene.cellSize_ofMarkers _ _ _), fun slot => ?_⟩
  obtain ⟨old, new, parts, kept, emitted⟩ :=
    Scene.holds_after (fun slot inside => ⟨_, inferred slot inside⟩) deeds slot
  exact ⟨Scene.distinct_after (Scene.distinct_ofMarkers _ _ _) deeds slot, old, new, parts,
    kept.trans (Scene.ofMarkers_sublist _ _ _ _), emitted⟩

def torchLayer : Layer :=
  let torch : Emission := ⟨"Torch", [], ["Floor"]⟩
  { Layer.standard with
    rotate := false
    shuffle := false
    pattern := some ⟨[{
      offset := ⟨0, 0⟩
      part := .ground
      script := (Script.withEntries.createNode (.emitMarker torch)).2.setLink 1
        Pin.defaultOutput .output (some ⟨2, Pin.defaultInput⟩)
      inserts := false }]⟩ }

def oneFloor : List Marker := [⟨0, "Floor", .ofPosition ⟨.half, .half, .two⟩⟩]

def torchStage : Stage :=
  .ofPattern (torchLayer.pattern.getD .empty) .standard false false .one
    (oneFloor.map (.mapPose (Pose.inverse .identity)))

theorem slots_hold_torchlit :
    upright.stage? torchLayer oneFloor = some torchStage ∧
      (upright.process? torchLayer oneFloor (Congruential.ofSeed 1)).map Prod.fst = some
        (torchStage.resultOf upright.frame
          (torchStage.attempts torchLayer (Congruential.ofSeed 1))) ∧
      ∀ m ∈ (torchStage.sceneAfter (torchStage.deeds torchLayer
          (Congruential.ofSeed 1))).markers ⟨.zero, .ground⟩,
        m ∈ oneFloor ∨ m.location.x = .half ∧ m.location.y = .half ∧ m.pose.scale = .one := by
  have staged : upright.stage? torchLayer oneFloor = some torchStage :=
    stage?_eq_some_iff.mpr ⟨_, .standard, rfl, by decide +kernel, rfl, rfl⟩
  obtain ⟨returned, -, points⟩ := slots_hold staged (Congruential.ofSeed 1)
  obtain ⟨cellSize, slots⟩ := points _ List.prefix_rfl
  obtain ⟨-, old, new, parts, kept, emitted⟩ := slots ⟨.zero, .ground⟩
  refine ⟨staged, returned, fun m hm => ?_⟩
  rw [parts] at hm
  rcases List.mem_append.mp hm with floor | torch
  · have here := (List.mem_filter.mp (kept.subset floor)).1
    have same : oneFloor.map (.mapPose upright.frame.inverse) = oneFloor := by decide +kernel
    exact .inl (same ▸ here)
  · obtain ⟨before, stance, e, earlier, -, emits⟩ := emitted m torch
    have size : (torchStage.sceneAfter before).cellSize = .one := Scene.cellSize_after _ _ _
    have x := emits.x 0
    have y := emits.y 0
    rw [size] at x y
    exact .inr ⟨x.trans (by decide +kernel), y.trans (by decide +kernel), emits.scale⟩

end Processor

end MarkerLattice
