import Mathlib
import MarkerLattice.Proofs.Binary32.Error
import MarkerLattice.Proofs.Pass.Disjoint
import MarkerLattice.Proofs.Random.Congruential
import MarkerLattice.Proofs.Stored.Text

/-! Emissions that repeat an earlier one. What an emission finds when it is over stands for
every later emission of the name at the place, however it got there. Without heights to
copy, the place of an emission is that of its slot on the level inferred at the start, so it
is the same all through a pass. -/
namespace MarkerLattice

theorem Binary32.abs_sub_self {x : Binary32} (h : x.isFinite = true) : (x - x).abs = .zero := by
  have whole : x.Denotes x.toRat := ⟨h, rfl⟩
  have fits : Representable (x.toRat - x.toRat) := ⟨0, 0, by simp, by decide, by decide, by decide⟩
  have none : (x - x).toRat = 0 := (whole.sub whole fits).toRat.trans (sub_self _)
  have bits : (x - x).magnitudeBits = 0 := by
    rw [← toRat_magnitude_eq_zero_iff, ← abs_toRat, none, abs_zero]
  rw [abs, bits]
  rfl

theorem Marker.locationsEqual_self {p : Location} (h : p.IsFinite) : locationsEqual p p = true := by
  obtain ⟨x, y, z⟩ := h
  simp only [locationsEqual, Vec3.sub, Vec3.map₂, Vec3.map, Binary32.abs_sub_self x,
    Binary32.abs_sub_self y, Binary32.abs_sub_self z]
  decide

namespace MarkerList

def HasAt (l : MarkerList) (name : String) (place : Location) : Prop :=
  ∃ m ∈ l, m.name = name ∧ Marker.locationsEqual m.location place = true

theorem any_isSame_iff (l : MarkerList) (m : Marker) :
    (l.any fun n => n.isSame m) = true ↔ l.HasAt m.name m.location := by
  simp [HasAt, Marker.isSame]

theorem add_of_hasAt {l : MarkerList} {m : Marker} (h : l.HasAt m.name m.location) :
    l.add m = l := by
  rw [add, if_pos ((l.any_isSame_iff m).mpr h)]

theorem hasAt_add (l : MarkerList) {m : Marker} (finite : m.location.IsFinite) :
    (l.add m).HasAt m.name m.location := by
  unfold add
  split
  next present => exact (l.any_isSame_iff m).mp present
  next => exact ⟨m, by simp, rfl, Marker.locationsEqual_self finite⟩

theorem firstNamed?_nil (l : MarkerList) : l.firstNamed? [] = none := by
  simp [firstNamed?]

theorem firstNamed?_concat (l : MarkerList) (m : Marker) (names : List String) :
    firstNamed? (l ++ [m]) names =
      (l.firstNamed? names).or (if m.name ∈ names then some m else none) := by
  rw [firstNamed?, List.find?_append, List.find?_singleton, firstNamed?]
  simp

end MarkerList

namespace Scene

variable (s : Scene) (levels : Levels) (stance : Stance) (e : Emission)

@[simp] theorem window_emit : (s.emit levels stance e).window = s.window :=
  s.window_perform levels stance (.emit e)

@[simp] theorem cellSize_emit : (s.emit levels stance e).cellSize = s.cellSize :=
  s.cellSize_perform levels stance (.emit e)

def emittedPlace : Location := (s.emittedPose levels stance e).position

def levelPlace : Location := s.locationOf stance.slot ((levels.slot? stance.slot).getD 0)

theorem emittedPlace_eq : s.emittedPlace levels stance e =
    match (s.markers stance.slot).firstNamed? e.heightFrom with
    | some m => { s.levelPlace levels stance with z := m.location.z }
    | none => s.levelPlace levels stance := rfl

theorem emittedPlace_of_nil {e : Emission} (h : e.heightFrom = []) :
    s.emittedPlace levels stance e = s.levelPlace levels stance := by
  rw [emittedPlace_eq, h, MarkerList.firstNamed?_nil]

theorem modifySlot_eq_self {s : Scene} {slot : Slot} {f : MarkerList → MarkerList}
    (h : f (s.markers slot) = s.markers slot) : s.modifySlot slot f = s := by
  refine ext_markers (s := s.modifySlot slot f) rfl (by simp) rfl fun t => ?_
  rw [markers_modifySlot]
  split
  next here => rw [here.1, h]
  next => rfl

theorem emit_of_hasAt {s : Scene} {levels : Levels} {stance : Stance} {e : Emission}
    (h : s.window.contains stance.slot.coord = true →
      (s.markers stance.slot).HasAt e.name (s.emittedPlace levels stance e)) :
    s.emit levels stance e = { s with
      nextId := s.nextId + if s.hasCell stance.slot.coord then 1 else 0 } := by
  cases inside : s.window.contains stance.slot.coord with
  | true =>
    have same := MarkerList.add_of_hasAt
      (m := ⟨s.nextId, e.name, s.emittedPose levels stance e⟩) (h inside)
    rw [emit_of_contains inside, modifySlot_eq_self same, hasCell, inside]
    rfl
  | false =>
    rw [emit_of_not_contains inside, hasCell, inside]
    simp

variable {s levels stance e}

theorem markers_emit (inside : s.window.contains stance.slot.coord = true) :
    (s.emit levels stance e).markers stance.slot =
      (s.markers stance.slot).add ⟨s.nextId, e.name, s.emittedPose levels stance e⟩ := by
  change (perform levels stance s (.emit e)).markers stance.slot = _
  rw [markers_perform, if_pos ⟨rfl, inside⟩]
  rfl

/-- After an emission something of its name is at its place: the new marker or the one for
which it was left out. -/
theorem hasAt_emit (inside : s.window.contains stance.slot.coord = true)
    (finite : (s.emittedPlace levels stance e).IsFinite) :
    ((s.emit levels stance e).markers stance.slot).HasAt e.name
      (s.emittedPlace levels stance e) := by
  rw [markers_emit inside]
  exact MarkerList.hasAt_add _ (m := ⟨s.nextId, e.name, s.emittedPose levels stance e⟩) finite

/-- A second emission goes where the first one went. If it copies a height from the marker
of the first, that is the height that the first got from the level. -/
theorem emittedPlace_emit (inside : s.window.contains stance.slot.coord = true) :
    (s.emit levels stance e).emittedPlace levels stance e = s.emittedPlace levels stance e := by
  have level : (s.emit levels stance e).levelPlace levels stance = s.levelPlace levels stance := by
    simp only [levelPlace, locationOf, cellSize_emit]
  have put : (s.emittedPose levels stance e).position = s.emittedPlace levels stance e := rfl
  rw [emittedPlace_eq (s.emit levels stance e), level, markers_emit inside]
  rw [emittedPlace_eq] at put ⊢
  generalize s.emittedPose levels stance e = pose at put ⊢
  rcases MarkerList.add_eq (s.markers stance.slot) ⟨s.nextId, e.name, pose⟩ with same | grown
  · rw [same]
  · rw [grown, MarkerList.firstNamed?_concat]
    cases first : (s.markers stance.slot).firstNamed? e.heightFrom with
    | some m => rfl
    | none =>
      rw [first] at put
      by_cases own : e.name ∈ e.heightFrom
      · simp [own, Marker.location, put]
      · simp [own]

theorem emit_emit (finite : (s.emittedPlace levels stance e).IsFinite) :
    (s.emit levels stance e).emit levels stance e = { s.emit levels stance e with
      nextId := s.nextId + if s.hasCell stance.slot.coord then 2 else 0 } := by
  rw [emit_of_hasAt, hasCell, hasCell, window_emit]
  · cases inside : s.window.contains stance.slot.coord with
    | true =>
      rw [emit_of_contains inside]
      simp only [if_true, Int32.add_assoc]
      rfl
    | false => simp [emit_of_not_contains inside]
  · intro inside
    rw [window_emit] at inside
    rw [emittedPlace_emit inside]
    exact hasAt_emit inside finite

theorem mem_markers_perform {slot : Slot} {m : Marker} {effect : Effect}
    (here : m ∈ s.markers slot) (stays : ¬ (stance.slot = slot ∧ effect = .remove m.name)) :
    m ∈ (perform levels stance s effect).markers slot := by
  have kept := (s.follows_perform levels stance effect).kept slot [m]
    (List.singleton_sublist.mpr here) (by simpa using stays)
  exact List.singleton_sublist.mp kept

end Scene

namespace PassRules

theorem flatMap_deeds_attempts {σ : Type} [RandomStream σ] {rules : PassRules}
    {probability : Binary32} (overlaps : rules.overlaps = true) (untracked : rules.sameHeight = [])
    {ps : List Placement} (hold : ∀ p ∈ ps, ∀ b, conditionsHold b p = true) (b : Board) {s : σ}
    (drawn : ∀ k, probability.le (RandomStream.fraction s k) = false) :
    (rules.attempts probability ps b s).flatMap Attempt.deeds = ps.flatMap Placement.deeds := by
  induction ps generalizing b s with
  | nil => rfl
  | cons p rest ih =>
    obtain ⟨own, others⟩ := List.forall_mem_cons.mp hold
    have executed : (rules.attempt probability b p (RandomStream.nextFraction s).1).Executed :=
      executed_attempt_iff.mpr
        ⟨drawn 0, executed_of_checks (.inl overlaps) (.inl untracked) (own b)⟩
    have outcome : (rules.attempt probability b p (RandomStream.nextFraction s).1).outcome? =
      some .executed := executed
    rw [attempts, List.flatMap_cons, List.flatMap_cons, Attempt.deeds, if_pos outcome,
      placement_attempt]
    exact congrArg _ (ih others _ fun k => drawn (k + 1))

end PassRules

namespace Stage

variable {σ : Type} [RandomStream σ] (stage : Stage) (layer : Layer) (s : σ)

def sceneAt (time : ℕ) : Scene := stage.sceneAfter ((stage.deeds layer s).take time)

theorem scene_finalBoard :
    (stage.finalBoard layer s).scene = stage.sceneAfter (stage.deeds layer s) := by
  have run := stage.rules.scene_boardAfter_take layer.probability (stage.order layer.shuffle s).1
    stage.board (stage.order layer.shuffle s).2 (stage.attempts layer s).length
  rwa [← attempts, List.take_length] at run

theorem sceneAt_length :
    stage.sceneAt layer s (stage.deeds layer s).length = (stage.finalBoard layer s).scene := by
  rw [sceneAt, List.take_length, scene_finalBoard]

@[simp] theorem window_sceneAt (time : ℕ) :
    (stage.sceneAt layer s time).window = stage.board.scene.window :=
  Scene.window_after _ _ _

/-- The place of a slot on its level is the same at all times: the levels are those of the
start. -/
theorem levelPlace_sceneAt (time : ℕ) (stance : Stance) :
    (stage.sceneAt layer s time).levelPlace stage.rules.levels stance =
      stage.board.scene.levelPlace stage.rules.levels stance := by
  have cellSize : (stage.sceneAt layer s time).cellSize = stage.board.scene.cellSize :=
    Scene.cellSize_after _ _ _
  rw [Scene.levelPlace, Scene.levelPlace, Scene.locationOf, Scene.locationOf, cellSize]

variable {stage layer s}

theorem sceneAt_succ {time : ℕ} {deed : Deed} (h : (stage.deeds layer s)[time]? = some deed) :
    stage.sceneAt layer s (time + 1) =
      Scene.perform stage.rules.levels deed.stance (stage.sceneAt layer s time) deed.effect := by
  rw [sceneAt, sceneAt, List.take_add_one, h, sceneAfter, sceneAfter, Option.toList,
    Scene.after_concat]

/-- What an emission found or put at its place is there until markers of its name go. -/
theorem hasAt_sceneAt {i j : ℕ} {stance : Stance} {e : Emission}
    (hi : (stage.deeds layer s)[i]? = some ⟨stance, .emit e⟩) (lt : i < j)
    (inside : stage.board.scene.window.contains stance.slot.coord = true)
    (finite : ((stage.sceneAt layer s i).emittedPlace stage.rules.levels stance e).IsFinite)
    (spared : ∀ k, i < k → k < j → ∀ m ∈ (stage.sceneAt layer s k).markers stance.slot,
      m.name = e.name → m ∈ (stage.sceneAt layer s (k + 1)).markers stance.slot) :
    ((stage.sceneAt layer s j).markers stance.slot).HasAt e.name
      ((stage.sceneAt layer s i).emittedPlace stage.rules.levels stance e) := by
  induction j, lt using Nat.le_induction with
  | base =>
    rw [sceneAt_succ hi]
    exact Scene.hasAt_emit (by rwa [window_sceneAt]) finite
  | succ k lt ih =>
    obtain ⟨m, hm, name, near⟩ := ih fun k' after before => spared k' after (by omega)
    exact ⟨m, spared k lt (by omega) m hm name, name, near⟩

end Stage

variable {σ : Type} [RandomStream σ]

/-- Emitting twice is emitting once, but for the identifier that is used up: the second time
the name is at its place already. In a pass an emission without heights to copy changes
nothing either if there was an earlier one of the name on the slot, turned in any way, and no
marker of the name has gone from the slot since. -/
theorem emit_repeats :
    (∀ (scene : Scene) (levels : Levels) (stance : Stance) (e : Emission),
      (scene.emittedPlace levels stance e).IsFinite →
        (scene.emit levels stance e).emit levels stance e =
            { scene.emit levels stance e with
              nextId := scene.nextId + if scene.hasCell stance.slot.coord then 2 else 0 } ∧
          (scene.hasCell stance.slot.coord = true →
            ((scene.emit levels stance e).markers stance.slot).HasAt e.name
              (scene.emittedPlace levels stance e))) ∧
    ∀ (stage : Stage) (layer : Layer) (s : σ) (i j : ℕ) (stance stance' : Stance)
      (e e' : Emission), i < j →
      (stage.deeds layer s)[i]? = some ⟨stance, .emit e⟩ →
      (stage.deeds layer s)[j]? = some ⟨stance', .emit e'⟩ →
      stance'.slot = stance.slot → e'.name = e.name → e.heightFrom = [] → e'.heightFrom = [] →
      ((stage.sceneAt layer s i).emittedPlace stage.rules.levels stance e).IsFinite →
      (∀ k, i < k → k < j → ∀ m ∈ (stage.sceneAt layer s k).markers stance.slot,
        m.name = e.name → m ∈ (stage.sceneAt layer s (k + 1)).markers stance.slot) →
      stage.sceneAt layer s (j + 1) =
          { stage.sceneAt layer s j with
            nextId := (stage.sceneAt layer s j).nextId +
              if (stage.sceneAt layer s j).hasCell stance.slot.coord then 1 else 0 } ∧
        stage.sceneAt layer s (stage.deeds layer s).length =
          (stage.finalBoard layer s).scene := by
  refine ⟨fun scene levels stance e finite =>
    ⟨Scene.emit_emit finite, fun inside => Scene.hasAt_emit inside finite⟩, ?_⟩
  intro stage layer s i j stance stance' e e' lt hi hj slot name plain plain' finite spared
  refine ⟨?_, stage.sceneAt_length layer s⟩
  rw [Stage.sceneAt_succ hj, ← slot]
  refine Scene.emit_of_hasAt fun inside => ?_
  rw [slot, Stage.window_sceneAt] at inside
  have present := Stage.hasAt_sceneAt hi lt inside finite spared
  rw [Scene.emittedPlace_of_nil _ _ _ plain, Stage.levelPlace_sceneAt] at present
  rw [Scene.emittedPlace_of_nil _ _ _ plain', Stage.levelPlace_sceneAt, slot, name]
  have same : stage.board.scene.levelPlace stage.rules.levels stance' =
      stage.board.scene.levelPlace stage.rules.levels stance := by
    rw [Scene.levelPlace, Scene.levelPlace, slot]
  rwa [same]

def relighting : Layer :=
  { Layer.standard with
    shuffle := false
    overlaps := true
    pattern := some ⟨[⟨⟨1, 1⟩, .ground, Processor.emitting "Torch", false⟩]⟩ }

def relitStage : Stage :=
  .ofPattern (relighting.pattern.getD .empty) .standard true true .one []

def relit : List Deed :=
  relitStage.placements.flatMap fun p =>
    p.orientation.rules.map fun r => ⟨p.stance r, .emit ⟨"Torch", [], []⟩⟩

theorem effect_relit {deed : Deed} (h : deed ∈ relit) :
    deed.effect = .emit ⟨"Torch", [], []⟩ := by
  obtain ⟨p, -, r, -, rfl⟩ := by simpa [relit] using h
  rfl

theorem exists_relit (i : ℕ) (turns : ℤ) (h : (relit[i]?.any fun deed =>
      deed.stance.slot = ⟨.zero, .ground⟩ && deed.stance.quarterTurns = turns) = true) :
    ∃ stance : Stance, relit[i]? = some ⟨stance, .emit ⟨"Torch", [], []⟩⟩ ∧
      stance.slot = ⟨.zero, .ground⟩ ∧ stance.quarterTurns = turns := by
  cases here : relit[i]? with
  | none => simp [here] at h
  | some deed =>
    obtain ⟨stance, effect⟩ := deed
    obtain rfl := effect_relit (List.mem_of_getElem? here)
    exact ⟨stance, rfl, by simpa [here] using h⟩

theorem script_relitStage {p : Placement} (h : p ∈ relitStage.placements) :
    ∀ r ∈ p.orientation.rules, r.script = Processor.emitting "Torch" := by
  intro r hr
  obtain ⟨q, hq, same⟩ := Orientation.exists_rule_of_mem_ofPatternAll
    (Stage.orientation_mem_of_mem_placements h) r hr
  obtain rfl := List.mem_singleton.mp hq
  exact same

theorem deeds_relitStage :
    relitStage.deeds relighting (Congruential.ofSeed 1) = relit := by
  have selects : (Processor.emitting "Torch").selection = .selection (.literal true) := by cbv
  have effects : (Processor.emitting "Torch").effects = [.emit ⟨"Torch", [], []⟩] := by cbv
  have order : relitStage.order relighting.shuffle (Congruential.ofSeed 1) =
      (relitStage.placements, Congruential.ofSeed 1) := rfl
  rw [Stage.deeds, Stage.attempts, order, PassRules.flatMap_deeds_attempts rfl rfl]
  · refine List.flatMap_congr fun p hp => ?_
    rw [Placement.deeds, List.map_eq_flatMap]
    refine List.flatMap_congr fun r hr => ?_
    rw [script_relitStage hp r hr, effects]
    rfl
  · intro p hp b
    apply List.all_eq_true.mpr
    intro r hr
    rw [script_relitStage hp r hr, selects]
    rfl
  · exact fun k => Binary32.not_le_of_lt (by decide) (Congruential.fraction_lt_one _ k)

def likeTorch : Emission := ⟨"Torch", [], ["Torch"]⟩

theorem emit_repeats_relit :
    (((relitStage.board.scene.emit relitStage.rules.levels .initial likeTorch).emit
      relitStage.rules.levels .initial likeTorch).markers ⟨.zero, .ground⟩).length = 1 ∧
    ∃ stance stance' : Stance,
      relit[0]? = some ⟨stance, .emit ⟨"Torch", [], []⟩⟩ ∧
      relit[11]? = some ⟨stance', .emit ⟨"Torch", [], []⟩⟩ ∧
      stance.slot = ⟨.zero, .ground⟩ ∧ stance'.slot = ⟨.zero, .ground⟩ ∧
      stance.quarterTurns ≠ stance'.quarterTurns ∧
      (relitStage.sceneAt relighting (Congruential.ofSeed 1) 12).markers stance.slot =
        (relitStage.sceneAt relighting (Congruential.ofSeed 1) 11).markers stance.slot := by
  obtain ⟨twice, inPass⟩ := emit_repeats (σ := Congruential)
  have single : (relitStage.board.scene.emittedPlace relitStage.rules.levels .initial
      likeTorch).IsFinite := by decide +kernel
  rw [(twice _ _ _ _ single).1]
  refine ⟨by decide +kernel, ?_⟩
  obtain ⟨stance, first, own, turns⟩ := exists_relit 0 0 (by decide +kernel)
  obtain ⟨stance', second, own', turns'⟩ := exists_relit 11 1 (by decide +kernel)
  refine ⟨stance, stance', first, second, own, own', by omega, ?_⟩
  have finite : ((relitStage.sceneAt relighting (Congruential.ofSeed 1) 0).emittedPlace
      relitStage.rules.levels stance ⟨"Torch", [], []⟩).IsFinite := by
    rw [Scene.emittedPlace_of_nil _ _ _ rfl, Stage.levelPlace_sceneAt, Scene.levelPlace, own]
    decide +kernel
  have spared : ∀ k, 0 < k → k < 11 →
      ∀ m ∈ (relitStage.sceneAt relighting (Congruential.ofSeed 1) k).markers stance.slot,
        m.name = "Torch" →
          m ∈ (relitStage.sceneAt relighting (Congruential.ofSeed 1) (k + 1)).markers
            stance.slot := by
    intro k _ before m hm _
    obtain ⟨short, -⟩ := List.getElem?_eq_some_iff.mp second
    obtain ⟨deed, here⟩ : ∃ deed, relit[k]? = some deed :=
      ⟨_, List.getElem?_eq_getElem (before.trans short)⟩
    have emits := effect_relit (List.mem_of_getElem? here)
    rw [← deeds_relitStage] at here
    rw [Stage.sceneAt_succ here]
    exact Scene.mem_markers_perform hm fun ⟨_, removes⟩ => by simp [emits] at removes
  rw [← deeds_relitStage] at first second
  obtain ⟨still, -⟩ := inPass relitStage relighting (Congruential.ofSeed 1) 0 11 stance
    stance' _ _ (by decide) first second (own'.trans own.symm) rfl rfl rfl finite spared
  rw [still]
  rfl

end MarkerLattice
