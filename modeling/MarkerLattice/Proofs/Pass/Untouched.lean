import Mathlib
import MarkerLattice.Proofs.Geometry.Move
import MarkerLattice.Proofs.Pass.Repeats

/-! The way of a marker through a pass that leaves it alone. Its pose is taken into the frame
of the dungeon, stands there as it is, and is taken back by the same formulas, which in exact
arithmetic lead back to where it was. -/
namespace MarkerLattice

def Deed.Emits (deed : Deed) (slot : Slot) (name : String) : Prop :=
  deed.stance.slot = slot ∧ ∃ e, deed.effect = .emit e ∧ e.name = name

namespace Scene

theorem follows_after (s : Scene) (levels : Levels) (deeds : List Deed) :
    Follows (fun slot name => ∃ deed ∈ deeds, deed.Removes slot name)
      (fun slot name => ∃ deed ∈ deeds, deed.Emits slot name) s (s.after levels deeds) :=
  List.foldlRecOn (motive := Follows _ _ s) deeds _ (.refl _ _ s) fun t ht deed hdeed =>
    ht.trans ((t.follows_perform levels deed.stance deed.effect).mono
      (fun _ _ removes => ⟨deed, hdeed, removes⟩) fun _ _ emits => ⟨deed, hdeed, emits⟩)

variable {s : Scene} {m : Marker}

theorem exists_mem_flatten {slot : Slot} (h : m ∈ s.markers slot) :
    ∃ id, { m with id } ∈ s.flatten := by
  have inside := contains_of_mem_markers h
  have listed : m ∈ s.window.slots.flatMap s.markers :=
    List.mem_flatMap.mpr ⟨slot, Window.mem_slots.mpr inside, h⟩
  obtain ⟨i, hi, here⟩ := List.mem_iff_getElem.mp listed
  rw [flatten_eq, renumber]
  exact ⟨_, List.mem_mapIdx.mpr ⟨i, hi, by rw [here]⟩⟩

theorem exists_of_mem_flatten (h : m ∈ s.flatten) :
    ∃ slot, ∃ m' ∈ s.markers slot, m = { m' with id := m.id } := by
  rw [flatten_eq, renumber] at h
  obtain ⟨i, hi, rfl⟩ := List.mem_mapIdx.mp h
  obtain ⟨slot, -, here⟩ := List.mem_flatMap.mp (List.getElem_mem hi)
  exact ⟨slot, _, here, rfl⟩

end Scene

namespace Processor

variable {σ : Type} [RandomStream σ] {d : Processor} {layer : Layer} {ms : List Marker}
  {stage : Stage}

theorem exists_mem_of_mem_stage (h : d.stage? layer ms = some stage) {slot : Slot} {m : Marker}
    (hm : m ∈ stage.board.scene.markers slot) : ∃ n ∈ ms, m = n.mapPose d.frame.inverse := by
  obtain ⟨pattern, settings, -, -, -, rfl⟩ := stage?_eq_some_iff.mp h
  have given := (Scene.ofMarkers_sublist _ _ _ _).subset hm
  obtain ⟨n, hn, rfl⟩ := List.mem_map.mp (List.mem_filter.mp given).1
  exact ⟨n, hn, rfl⟩

theorem markers_of_process? (h : d.stage? layer ms = some stage) {s : σ} {result : PassResult}
    (run : (d.process? layer ms s).map Prod.fst = some result) :
    result.markers =
      (stage.sceneAfter (stage.deeds layer s)).flatten.map (.mapPose d.frame) := by
  rw [process?_of_stage? h, attempts_of_stage? h] at run
  rw [← Option.some.inj run, Stage.resultOf, ← Stage.finalBoard, Stage.scene_finalBoard]

theorem removes_of_mem_deeds {pattern : Pattern} (authored : layer.pattern = some pattern)
    (h : d.stage? layer ms = some stage) {s : σ} {deed : Deed}
    (hdeed : deed ∈ stage.deeds layer s) {slot : Slot} {name : String}
    (removes : deed.Removes slot name) : pattern.Removes name := by
  obtain ⟨a, ha, own⟩ := List.mem_flatMap.mp hdeed
  rw [← attempts_of_stage? h] at ha
  unfold Attempt.deeds at own
  split at own
  · obtain ⟨r, hr, own⟩ := List.mem_flatMap.mp own
    obtain ⟨effect, he, rfl⟩ := List.mem_map.mp own
    obtain ⟨q, hq, script⟩ := exists_rule_of_mem_attempts authored h ha r hr
    obtain ⟨-, rfl⟩ := removes
    exact ⟨q, hq, script ▸ Script.removes_of_mem_effects he⟩
  · contradiction

/-- A marker leaves a pass by the way into the frame and back, if no effect removes it. -/
theorem exists_mem_of_spared (h : d.stage? layer ms = some stage) {s : σ} {result : PassResult}
    (run : (d.process? layer ms s).map Prod.fst = some result) {m : Marker} {slot : Slot}
    (here : m.mapPose d.frame.inverse ∈ stage.board.scene.markers slot)
    (spared : ∀ deed ∈ stage.deeds layer s, ¬ deed.Removes slot m.name) :
    ∃ m' ∈ result.markers, m'.name = m.name ∧ m'.pose = d.frame.returned m.pose := by
  have follows := stage.board.scene.follows_after stage.rules.levels (stage.deeds layer s)
  have stays := List.singleton_sublist.mp (follows.kept slot _
    (List.singleton_sublist.mpr here) (by simpa [Marker.mapPose] using spared))
  obtain ⟨id, listed⟩ := Scene.exists_mem_flatten stays
  rw [markers_of_process? h run]
  exact ⟨_, List.mem_map_of_mem listed, rfl, rfl⟩

theorem exists_or_emitted_of_mem (h : d.stage? layer ms = some stage) {s : σ}
    {result : PassResult} (run : (d.process? layer ms s).map Prod.fst = some result)
    {m' : Marker} (hm' : m' ∈ result.markers) :
    (∃ m ∈ ms, m'.name = m.name ∧ m'.pose = d.frame.returned m.pose) ∨
      ∃ slot, ∃ deed ∈ stage.deeds layer s, deed.Emits slot m'.name := by
  have follows := stage.board.scene.follows_after stage.rules.levels (stage.deeds layer s)
  rw [markers_of_process? h run] at hm'
  obtain ⟨n, hn, rfl⟩ := List.mem_map.mp hm'
  obtain ⟨slot, m, hm, same⟩ := Scene.exists_of_mem_flatten hn
  rcases follows.fresh slot m hm with old | new
  · obtain ⟨given, hgiven, rfl⟩ := exists_mem_of_mem_stage h old
    exact .inl ⟨given, hgiven, by rw [same]; rfl, by rw [same]; rfl⟩
  · exact .inr ⟨slot, by rw [same]; exact new⟩

/-- In exact arithmetic the inverse of a pose undoes it on either side, if its quaternion has
norm one and its scale is not tiny and the same in all directions that the rotation turns. A
pass evaluates these formulas, and nothing else, on the pose of a marker that no effect
removes from its slot. In a dungeon that is only moved this is exact, and the marker leaves
with the pose that it came with, if single precision can write where it stands in the
dungeon. Whatever else leaves a pass was emitted by it. -/
theorem process?_returned (h : d.stage? layer ms = some stage) (s : σ) :
    (∀ p : Pose ℚ, p.Undoable → ∀ b,
      p.compose (p.inverse.compose b) = b ∧ p.inverse.compose (p.compose b) = b) ∧
    ∃ result, (d.process? layer ms s).map Prod.fst = some result ∧
      (∀ (m : Marker) (slot : Slot),
        m.mapPose d.frame.inverse ∈ stage.board.scene.markers slot →
        (∀ deed ∈ stage.deeds layer s, ¬ deed.Removes slot m.name) →
        ∃ m' ∈ result.markers, m'.name = m.name ∧ m'.pose = d.frame.returned m.pose ∧
          ∀ (t : Vec3 Binary32) (c : Vec3 ℚ) (b : Pose ℚ), d.frame = .ofPosition t →
            t.Denotes c → m.pose.Denotes b → b.WritableFrom c → m'.pose.Denotes b) ∧
      ∀ m' ∈ result.markers,
        (∃ m ∈ ms, m'.name = m.name ∧ m'.pose = d.frame.returned m.pose) ∨
          ∃ slot, ∃ deed ∈ stage.deeds layer s, deed.Emits slot m'.name := by
  have run := process?_of_stage? h s
  refine ⟨fun p undoable b => ⟨undoable.returned b, undoable.inverse_compose b⟩, _, run,
    fun m slot here spared => ?_, fun m' hm' => exists_or_emitted_of_mem h run hm'⟩
  obtain ⟨m', hm', name, pose⟩ := exists_mem_of_spared h run here spared
  refine ⟨m', hm', name, pose, fun t c b moved ht hb writable => ?_⟩
  rw [moved] at pose
  exact pose ▸ hb.returned_ofPosition ht writable

def halfTurned : Processor where
  frame :=
    { position := ⟨.ofInt 4, .ofInt 6, .ofInt 8⟩
      rotation := ⟨.zero, .zero, .one, .zero⟩
      scale := ⟨.two, .two, .ofInt 4⟩ }
  cellSize := .one

def farFloor : Marker := ⟨7, "Floor", .ofPosition ⟨.ofInt 3, .ofInt 5, .ofInt 8⟩⟩

def farStage : Stage :=
  .ofPattern aslant .standard true false .one [farFloor.mapPose halfTurned.frame.inverse]

def halfTurnedFrame : Pose ℚ := ⟨⟨4, 6, 8⟩, ⟨0, 0, 1, 0⟩, ⟨2, 2, 4⟩⟩

theorem undoable_halfTurnedFrame : halfTurnedFrame.Undoable := by
  refine ⟨?_, ⟨?_, ?_, ?_⟩, rfl, .inr ⟨rfl, rfl⟩⟩
  · norm_num [Quat.IsUnit, halfTurnedFrame]
  · norm_num [halfTurnedFrame]
  · norm_num [halfTurnedFrame]
  · norm_num [halfTurnedFrame]

def shifted : Processor := ⟨.ofPosition ⟨.ofInt 2, .ofInt 4, .ofInt 8⟩, .one⟩

def shiftedStage : Stage :=
  .ofPattern aslant .standard true false .one [farFloor.mapPose shifted.frame.inverse]

theorem process?_returned_farFloor :
    halfTurnedFrame.inverse.compose (halfTurnedFrame.compose .identity) = .identity ∧
      (∃ result, (halfTurned.process? aslantLayer [farFloor] (Congruential.ofSeed 1)).map
          Prod.fst = some result ∧
        ∃ m ∈ result.markers, m.name = "Floor" ∧ m.pose.Denotes (.ofPosition ⟨3, 5, 8⟩)) ∧
      ∃ result, (shifted.process? aslantLayer [farFloor] (Congruential.ofSeed 1)).map
          Prod.fst = some result ∧
        ∃ m ∈ result.markers, m.name = "Floor" ∧ m.pose.Denotes (.ofPosition ⟨3, 5, 8⟩) := by
  have effect : aslant.hasEffect = true := by decide +kernel
  have staged : halfTurned.stage? aslantLayer [farFloor] = some farStage :=
    stage?_eq_some_iff.mpr ⟨aslant, .standard, rfl, effect, rfl, rfl⟩
  have staged' : shifted.stage? aslantLayer [farFloor] = some shiftedStage :=
    stage?_eq_some_iff.mpr ⟨aslant, .standard, rfl, effect, rfl, rfl⟩
  obtain ⟨undone, result, run, stays, -⟩ := process?_returned staged (Congruential.ofSeed 1)
  obtain ⟨-, result', run', stays', -⟩ := process?_returned staged' (Congruential.ofSeed 1)
  have here : farFloor.mapPose halfTurned.frame.inverse ∈
      farStage.board.scene.markers ⟨.zero, .ground⟩ := by decide +kernel
  have here' : farFloor.mapPose shifted.frame.inverse ∈
      shiftedStage.board.scene.markers ⟨.one, .corner⟩ := by decide +kernel
  have permanent : ¬ aslant.Removes "Floor" := by decide +kernel
  obtain ⟨m, hm, name, pose, -⟩ := stays farFloor _ here fun deed hdeed removes =>
    permanent (removes_of_mem_deeds rfl staged hdeed removes)
  obtain ⟨m', hm', name', -, recovers⟩ := stays' farFloor _ here' fun deed hdeed removes =>
    permanent (removes_of_mem_deeds rfl staged' hdeed removes)
  have computed : m.pose.Denotes (halfTurnedFrame.returned (.ofPosition ⟨3, 5, 8⟩)) := by
    rw [pose]
    decide +kernel
  rw [undoable_halfTurnedFrame.returned] at computed
  have writable : (Pose.ofPosition ⟨3, 5, 8⟩).WritableFrom ⟨2, 4, 8⟩ := by
    have one : Binary32.Representable 1 := Binary32.denotes_one.representable
    have zero : Binary32.Representable 0 := Binary32.denotes_zero.representable
    constructor <;> norm_num [Pose.ofPosition, one, zero]
  have back := recovers _ ⟨2, 4, 8⟩ (.ofPosition ⟨3, 5, 8⟩) rfl (by decide +kernel)
    (by decide +kernel) writable
  exact ⟨(undone _ undoable_halfTurnedFrame _).2, ⟨result, run, m, hm, name, computed⟩, result',
    run', m', hm', name', back⟩

end Processor

end MarkerLattice
