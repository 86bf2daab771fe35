import Mathlib
import MarkerLattice.Proofs.Lattice.Identifier
import MarkerLattice.Proofs.Pass.Exclusive

/-! Markers come and go by name only. A pass drops no marker but of a name that its
scripts remove, and what it adds on a slot has a name that an executed rule on that
slot emits. This holds of every effect and carries over to sequences of them, whatever
the earlier ones did. -/
namespace MarkerLattice

namespace Script

/-- Some node emits markers of the name. -/
def Emits (s : Script) (name : String) : Prop :=
  ∃ n ∈ s.nodes, ∃ e : Emission, n.kind = .emitMarker e ∧ e.name = name

def Removes (s : Script) (name : String) : Prop :=
  ∃ n ∈ s.nodes, n.kind = .removeMarker name

instance (s : Script) (name : String) : Decidable (s.Removes name) :=
  inferInstanceAs (Decidable (∃ n ∈ s.nodes, n.kind = .removeMarker name))

variable {s : Script}

theorem emits_of_mem_effects {e : Emission} (h : .emit e ∈ s.effects) : s.Emits e.name := by
  obtain ⟨n, hn, kind⟩ := exists_node_of_mem_effects h
  exact ⟨n, hn, e, kind, rfl⟩

theorem removes_of_mem_effects {name : String} (h : .remove name ∈ s.effects) :
    s.Removes name :=
  exists_node_of_mem_effects h

theorem hasEffect_iff : s.hasEffect = true ↔ ∃ name, s.Emits name ∨ s.Removes name := by
  simp only [hasEffect, List.any_eq_true, NodeKind.isEffect_iff]
  constructor
  · rintro ⟨n, hn, e | name, kind⟩
    · exact ⟨e.name, .inl ⟨n, hn, e, kind, rfl⟩⟩
    · exact ⟨name, .inr ⟨n, hn, kind⟩⟩
  · rintro ⟨name, ⟨n, hn, e, kind, -⟩ | ⟨n, hn, kind⟩⟩
    · exact ⟨n, hn, .emit e, kind⟩
    · exact ⟨n, hn, .remove name, kind⟩

theorem effects_eq_nil (h : s.hasEffect = false) : s.effects = [] := by
  apply List.eq_nil_iff_forall_not_mem.mpr
  intro e he
  obtain ⟨n, hn, kind⟩ := exists_node_of_mem_effects he
  have effect : s.hasEffect = true :=
    List.any_eq_true.mpr ⟨n, hn, (NodeKind.isEffect_iff _).mpr ⟨e, kind⟩⟩
  simp [h] at effect

end Script

namespace Pattern

def Emits (p : Pattern) (name : String) : Prop := ∃ r ∈ p.rules, r.script.Emits name

def Removes (p : Pattern) (name : String) : Prop := ∃ r ∈ p.rules, r.script.Removes name

instance (p : Pattern) (name : String) : Decidable (p.Removes name) :=
  inferInstanceAs (Decidable (∃ r ∈ p.rules, r.script.Removes name))

theorem hasEffect_eq_false_iff (p : Pattern) :
    p.hasEffect = false ↔ ∀ name, ¬ p.Emits name ∧ ¬ p.Removes name := by
  rw [← Bool.not_eq_true, ← not_iff_not, not_not]
  simp only [hasEffect, List.any_eq_true, Script.hasEffect_iff, Emits, Removes]
  push Not
  constructor
  · rintro ⟨r, hr, name, emits | removes⟩
    · exact ⟨name, fun none => absurd emits (none r hr)⟩
    · exact ⟨name, fun _ => ⟨r, hr, removes⟩⟩
  · rintro ⟨name, h⟩
    by_cases emits : ∃ r ∈ p.rules, r.script.Emits name
    · obtain ⟨r, hr, emits⟩ := emits
      exact ⟨r, hr, name, .inl emits⟩
    · push Not at emits
      obtain ⟨r, hr, removes⟩ := h emits
      exact ⟨r, hr, name, .inr removes⟩

end Pattern

theorem Orientation.exists_rule_of_mem_ofPatternAll {p : Pattern} {rotate : Bool}
    {o : Orientation} (h : o ∈ ofPatternAll p rotate) :
    ∀ r ∈ o.rules, ∃ q ∈ p.rules, r.script = q.script := by
  refine forall_mem_turns (P := fun o => ∀ r ∈ o.rules, ∃ q ∈ p.rules, r.script = q.script)
    (fun o ho => ?_) _ _ ?_ o h
  · rw [rules_turned, List.forall_mem_map]
    exact ho
  · rw [ofPattern, rules_ofRules, List.forall_mem_map]
    exact fun q hq => ⟨q, hq, rfl⟩

namespace Scene

/-- What became of `s` if only some names may go and only some may come, slot by slot.
Markers that may not go stay in their order. -/
structure Follows (gone come : Slot → String → Prop) (s t : Scene) : Prop where
  kept : ∀ slot (l : MarkerList), l.Sublist (s.markers slot) → (∀ m ∈ l, ¬ gone slot m.name) →
    l.Sublist (t.markers slot)
  fresh : ∀ slot, ∀ m ∈ t.markers slot, m ∈ s.markers slot ∨ come slot m.name

namespace Follows

variable {gone come gone' come' : Slot → String → Prop} {s t u : Scene}

theorem refl (gone come : Slot → String → Prop) (s : Scene) : Follows gone come s s :=
  ⟨fun _ _ sub _ => sub, fun _ _ hm => .inl hm⟩

theorem trans (hst : Follows gone come s t) (htu : Follows gone come t u) :
    Follows gone come s u where
  kept slot l sub stays := htu.kept slot l (hst.kept slot l sub stays) stays
  fresh slot m hm := (htu.fresh slot m hm).elim (hst.fresh slot m) .inr

theorem mono (h : Follows gone come s t) (le : ∀ slot name, gone slot name → gone' slot name)
    (le' : ∀ slot name, come slot name → come' slot name) : Follows gone' come' s t where
  kept slot l sub stays := h.kept slot l sub fun m hm going => stays m hm (le _ _ going)
  fresh slot m hm := (h.fresh slot m hm).imp_right (le' _ _)

end Follows

theorem sublist_change {e : Effect} {l l' : MarkerList} (sub : l'.Sublist l)
    (stays : ∀ m ∈ l', e ≠ .remove m.name) (id : Int32) (pose : Emission → Pose Binary32) :
    l'.Sublist (e.change id pose l) := by
  cases e with
  | emit e =>
    simp only [Effect.change, MarkerList.add]
    split
    · exact sub
    · exact sub.trans (List.sublist_append_left _ _)
  | remove name =>
    have all : l'.filter (fun m => m.name ≠ name) = l' := by
      rw [List.filter_eq_self]
      intro m hm
      exact decide_eq_true fun same => stays m hm (congrArg Effect.remove same.symm)
    rw [← all]
    exact sub.filter _

theorem mem_change {e : Effect} {id : Int32} {pose : Emission → Pose Binary32}
    {l : MarkerList} {m : Marker} (h : m ∈ e.change id pose l) :
    m ∈ l ∨ ∃ e', e = .emit e' ∧ e'.name = m.name := by
  cases e with
  | emit e =>
    simp only [Effect.change, MarkerList.add] at h
    split at h
    · exact .inl h
    · rcases List.mem_append.mp h with old | new
      · exact .inl old
      · obtain rfl := List.mem_singleton.mp new
        exact .inr ⟨e, rfl, rfl⟩
  | remove name => exact .inl (List.mem_of_mem_filter h)

variable (s : Scene) (levels : Levels) (stance : Stance)

theorem follows_perform (e : Effect) :
    Follows (fun slot name => stance.slot = slot ∧ e = .remove name)
      (fun slot name => stance.slot = slot ∧ ∃ e', e = .emit e' ∧ e'.name = name) s
      (perform levels stance s e) where
  kept slot l sub stays := by
    rw [markers_perform]
    split
    next h =>
      exact sublist_change sub (fun m hm removes => stays m hm ⟨h.1.symm, removes⟩) _ _
    next => exact sub
  fresh slot m hm := by
    rw [markers_perform] at hm
    split at hm
    next h => exact (mem_change hm).imp_right fun emits => ⟨h.1.symm, emits⟩
    next => exact .inl hm

theorem follows_performAll (script : Script) :
    Follows (fun slot name => stance.slot = slot ∧ script.Removes name)
      (fun slot name => stance.slot = slot ∧ script.Emits name) s
      (s.performAll levels stance script.effects) := by
  refine List.foldlRecOn script.effects (perform levels stance) (.refl _ _ s)
    fun t ht e he => ht.trans ((t.follows_perform levels stance e).mono ?_ ?_)
  · rintro slot name ⟨own, rfl⟩
    exact ⟨own, Script.removes_of_mem_effects he⟩
  · rintro slot name ⟨own, e', rfl, rfl⟩
    exact ⟨own, Script.emits_of_mem_effects he⟩

end Scene

namespace Attempt

def Emits (a : Attempt) (slot : Slot) (name : String) : Prop :=
  a.Executed ∧ ∃ r ∈ a.placement.orientation.rules, a.placement.slot r = slot ∧
    r.script.Emits name

def Removes (a : Attempt) (slot : Slot) (name : String) : Prop :=
  a.Executed ∧ ∃ r ∈ a.placement.orientation.rules, a.placement.slot r = slot ∧
    r.script.Removes name

end Attempt

namespace PassRules

open Scene (Follows)

variable {σ : Type} [RandomStream σ] (rules : PassRules) (probability : Binary32)

theorem follows_attempt (b : Board) (p : Placement) (draw : Binary32) :
    Follows (rules.attempt probability b p draw).Removes
      (rules.attempt probability b p draw).Emits b.scene
      (rules.attempt probability b p draw).after.scene := by
  by_cases h : (rules.attempt probability b p draw).Executed
  · -- The invariant of the loop over the rules is `Follows` from the board before it.
    rw [after_of_executed h]
    refine List.foldlRecOn (motive := fun c => Follows _ _ b.scene c.scene)
      p.orientation.rules (rules.runRule p) (.refl _ _ _) fun c hc r hr =>
        hc.trans ((c.scene.follows_performAll rules.levels (p.stance r) r.script).mono ?_ ?_)
    · rintro slot name ⟨own, removes⟩
      refine ⟨h, r, ?_, ?_, removes⟩
      · rwa [placement_attempt]
      · rwa [placement_attempt]
    · rintro slot name ⟨own, emits⟩
      refine ⟨h, r, ?_, ?_, emits⟩
      · rwa [placement_attempt]
      · rwa [placement_attempt]
  · rw [after_of_not_executed h]
    exact .refl _ _ _

theorem follows_attempts (ps : List Placement) (b : Board) (s : σ) :
    Follows (fun slot name => ∃ a ∈ rules.attempts probability ps b s, a.Removes slot name)
      (fun slot name => ∃ a ∈ rules.attempts probability ps b s, a.Emits slot name) b.scene
      (boardAfter b (rules.attempts probability ps b s)).scene := by
  induction ps generalizing b s with
  | nil => exact .refl _ _ _
  | cons p rest ih =>
    simp only [attempts, boardAfter, List.exists_mem_cons_iff]
    have head := rules.follows_attempt probability b p (RandomStream.nextFraction s).1
    have tail := ih (rules.attempt probability b p (RandomStream.nextFraction s).1).after
      (RandomStream.nextFraction s).2
    exact (head.mono (fun _ _ => .inl) fun _ _ => .inl).trans
      (tail.mono (fun _ _ => .inr) fun _ _ => .inr)

theorem scene_tryAll_of_idle {ps : List Placement}
    (idle : ∀ p ∈ ps, ∀ r ∈ p.orientation.rules, r.script.hasEffect = false) (b : Board)
    (tally : Tally) (s : σ) : (rules.tryAll probability ps b tally s).1.scene = b.scene := by
  induction ps generalizing b tally s with
  | nil => rfl
  | cons p rest ih =>
    obtain ⟨own, others⟩ := List.forall_mem_cons.mp idle
    have step : (rules.tryPlacement b p).2.scene = b.scene := by
      by_cases h : (rules.tryPlacement b p).1 = .executed
      · rw [(tryPlacement_of_executed h).2.2]
        refine List.foldlRecOn (motive := fun c => c.scene = b.scene) p.orientation.rules
          (rules.runRule p) rfl fun c hc r hr => ?_
        rw [runRule, Script.effects_eq_nil (own r hr)]
        exact hc
      · rw [tryPlacement_of_not_executed h]
    rw [tryAll]
    dsimp only
    split
    · exact ih others _ _ _
    · exact (ih others _ _ _).trans step

end PassRules

def Stage.finalBoard {σ : Type} [RandomStream σ] (stage : Stage) (layer : Layer) (s : σ) :
    Board :=
  PassRules.boardAfter stage.board (stage.attempts layer s)

namespace Processor

variable {σ : Type} [RandomStream σ] {d : Processor} {layer : Layer} {ms : List Marker}
  {stage : Stage}

theorem exists_rule_of_mem_attempts {pattern : Pattern} (authored : layer.pattern = some pattern)
    (h : d.stage? layer ms = some stage) {s : σ} {a : Attempt} (ha : a ∈ d.attempts layer ms s) :
    ∀ r ∈ a.placement.orientation.rules, ∃ q ∈ pattern.rules, r.script = q.script := by
  rw [attempts_of_stage? h] at ha
  obtain ⟨settings, rfl⟩ := exists_settings_of_stage? authored h
  exact Orientation.exists_rule_of_mem_ofPatternAll
    (Stage.orientation_mem_of_mem_placements (Stage.placement_mem_of_mem_attempts ha))

theorem removes_of_mem_attempts {pattern : Pattern} (authored : layer.pattern = some pattern)
    (h : d.stage? layer ms = some stage) {s : σ} {a : Attempt}
    (ha : a ∈ d.attempts layer ms s) {slot : Slot} {name : String}
    (removes : a.Removes slot name) : pattern.Removes name := by
  obtain ⟨-, r, hr, -, removes⟩ := removes
  obtain ⟨q, hq, script⟩ := exists_rule_of_mem_attempts authored h ha r hr
  exact ⟨q, hq, script ▸ removes⟩

/-- A pass keeps every marker whose name no script of the pattern removes, in its slot
and in order. What it adds to a slot has a name that an executed rule on the slot emits.
A pattern that does neither would change nothing if it were run, so nothing is lost by
leaving its layer out. -/
theorem process?_follows {pattern : Pattern} (authored : layer.pattern = some pattern)
    (h : d.stage? layer ms = some stage) (s : σ) :
    (d.process? layer ms s).map (·.1.markers) =
        some ((stage.finalBoard layer s).scene.flatten.map (.mapPose d.frame)) ∧
      (∀ slot, ((stage.board.scene.markers slot).filter fun m =>
          ¬ pattern.Removes m.name).Sublist ((stage.finalBoard layer s).scene.markers slot)) ∧
      (∀ slot, ∀ m ∈ (stage.finalBoard layer s).scene.markers slot,
        m ∉ stage.board.scene.markers slot →
          ∃ a ∈ d.attempts layer ms s, a.Executed ∧
            ∃ r ∈ a.placement.orientation.rules, a.placement.slot r = slot ∧
              r.script.Emits m.name) ∧
      ∀ idle : Pattern,
        (idle.hasEffect = false ↔ ∀ name, ¬ idle.Emits name ∧ ¬ idle.Removes name) ∧
        (idle.hasEffect = false → ∀ (rules : PassRules) (probability : Binary32)
          (rotate : Bool) (ps : List Placement) (b : Board) (tally : Tally),
          (∀ p ∈ ps, p.orientation ∈ Orientation.ofPatternAll idle rotate) →
            (rules.tryAll probability ps b tally s).1.scene = b.scene) := by
  have follows := stage.rules.follows_attempts layer.probability
    (stage.order layer.shuffle s).1 stage.board (stage.order layer.shuffle s).2
  refine ⟨?_, fun slot => ?_, fun slot m hm new => ?_, fun idle =>
    ⟨idle.hasEffect_eq_false_iff, fun still rules probability rotate ps b tally tried => ?_⟩⟩
  · have markers := congrArg (Option.map PassResult.markers) (process?_of_stage? h s)
    rw [Option.map_map, attempts_of_stage? h] at markers
    exact markers
  · refine follows.kept slot _ (List.filter_sublist ..) fun m hm ⟨a, ha, removes⟩ => ?_
    have stays : ¬ pattern.Removes m.name := by simpa using (List.mem_filter.mp hm).2
    rw [← Stage.attempts, ← attempts_of_stage? h] at ha
    exact stays (removes_of_mem_attempts authored h ha removes)
  · obtain ⟨a, ha, emits⟩ := (follows.fresh slot m hm).resolve_left new
    rw [← Stage.attempts, ← attempts_of_stage? h] at ha
    exact ⟨a, ha, emits⟩
  · refine rules.scene_tryAll_of_idle probability (fun p hp r hr => ?_) b tally s
    obtain ⟨q, hq, script⟩ := Orientation.exists_rule_of_mem_ofPatternAll (tried p hp) r hr
    rw [script]
    exact Bool.eq_false_iff.mpr (List.any_eq_false.mp still q hq)

def walledTile : List Marker :=
  ["Floor", "Wall"].map fun name => ⟨0, name, .ofPosition ⟨.half, .half, .zero⟩⟩

def walledStage : Stage :=
  .ofPattern aslant .standard true false .one (walledTile.map (.mapPose (Pose.inverse .identity)))

theorem stage?_walledTile : upright.stage? aslantLayer walledTile = some walledStage := by
  have effect : aslant.hasEffect = true := by decide +kernel
  exact stage?_eq_some_iff.mpr ⟨aslant, .standard, rfl, effect, rfl, rfl⟩

theorem process?_follows_walledTile :
    (walledStage.board.scene.markers ⟨.zero, .ground⟩).map Marker.name = ["Floor", "Wall"] ∧
      aslant.Removes "Wall" ∧ ¬ aslant.Removes "Floor" ∧
      ["Floor"].Sublist (((walledStage.finalBoard aslantLayer
        (Congruential.ofSeed 1)).scene.markers ⟨.zero, .ground⟩).map Marker.name) ∧
      ∀ slot, ∀ m ∈ (walledStage.finalBoard aslantLayer
        (Congruential.ofSeed 1)).scene.markers slot,
          m ∈ walledStage.board.scene.markers slot := by
  obtain ⟨-, kept, fresh, -⟩ :=
    process?_follows rfl stage?_walledTile (Congruential.ofSeed 1)
  have floor : ((walledStage.board.scene.markers ⟨.zero, .ground⟩).filter fun m =>
      ¬ aslant.Removes m.name).map Marker.name = ["Floor"] := by
    decide +kernel
  refine ⟨by decide +kernel, by decide +kernel, by decide +kernel, ?_, fun slot m hm => ?_⟩
  · rw [← floor]
    exact (kept _).map _
  · by_contra new
    obtain ⟨a, ha, -, r, hr, -, n, hn, e, kind, -⟩ := fresh slot m hm new
    obtain ⟨q, hq, script⟩ := exists_rule_of_mem_attempts rfl stage?_walledTile ha r hr
    have silent : ∀ q ∈ aslant.rules, ∀ n ∈ q.script.nodes, n.kind.isEmission = false := by
      decide +kernel
    have emission := silent q hq n (script ▸ hn)
    simp [kind, NodeKind.isEmission] at emission

end Processor

end MarkerLattice
