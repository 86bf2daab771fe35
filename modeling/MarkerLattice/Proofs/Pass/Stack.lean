import Mathlib
import MarkerLattice.Proofs.Pass.Draws
import MarkerLattice.Proofs.Pass.Reorder

/-! Stacks of layers. A layer hands its markers and the stream behind its draws to the next
one, and a layer with nothing to do hands on both as they came. What a stack makes of its
markers depends on the stream through its fractions alone. -/
namespace MarkerLattice

open RandomStream (fraction)

/-- There is nothing for a pass to do: no pattern, no settings for the lattice, or no action
in the scripts but their entries. -/
def Layer.Idle (layer : Layer) : Prop :=
  layer.pattern = none ∨ layer.domain = .generic ∨
    ∃ p ∈ layer.pattern, ∀ r ∈ p.rules, ∀ n ∈ r.script.nodes,
      n.kind.isAction = true → n.kind = .onPass

instance (layer : Layer) : Decidable layer.Idle := inferInstanceAs (Decidable (_ ∨ _ ∨ _))

/-- The model without the layers at some places. -/
def Model.without (model : Model) (gone : Finset ℕ) : Model :=
  ⟨(model.layers.zipIdx.filter fun e => e.2 ∉ gone).map Prod.fst⟩

theorem Pattern.hasEffect_eq_false_iff_entries (p : Pattern) : p.hasEffect = false ↔
    ∀ r ∈ p.rules, ∀ n ∈ r.script.nodes, n.kind.isAction = true → n.kind = .onPass := by
  simp [hasEffect, Script.hasEffect, NodeKind.isEffect]

namespace Processor

variable {σ τ : Type} [RandomStream σ] [RandomStream τ] (d : Processor) {layer : Layer}
  (ms : List Marker)

theorem stage?_eq_none_iff : d.stage? layer ms = none ↔ layer.Idle := by
  cases authored : layer.pattern with
  | none => simp [stage?, Layer.Idle, authored]
  | some p =>
    rw [stage?_of_pattern authored, Layer.Idle, authored]
    cases domain : layer.domain with
    | generic => simp [Layer.gridSettings?, domain]
    | grid settings =>
      have settled : layer.gridSettings? = some settings := by rw [Layer.gridSettings?, domain]
      cases effect : p.hasEffect with
      | false => simpa using p.hasEffect_eq_false_iff_entries.mp effect
      | true => simpa [settled, effect] using (not_congr p.hasEffect_eq_false_iff_entries).mp

theorem process?_eq_none_iff (s : σ) : d.process? layer ms s = none ↔ layer.Idle := by
  rw [process?_eq_run, Option.map_eq_none_iff, stage?_eq_none_iff]

theorem applyLayer_of_idle (idle : layer.Idle) (state : List Marker × σ) :
    d.applyLayer state layer = state := by
  rw [applyLayer, (d.process?_eq_none_iff state.1 state.2).mpr idle]

theorem apply_append (layers layers' : List Layer) (s : σ) :
    d.apply ⟨layers ++ layers'⟩ ms s =
      d.apply ⟨layers'⟩ (d.apply ⟨layers⟩ ms s).1 (d.apply ⟨layers⟩ ms s).2 :=
  List.foldl_append

theorem apply_without {model : Model} {gone : Finset ℕ}
    (idle : ∀ i ∈ gone, ∀ layer ∈ model.layers[i]?, layer.Idle) (s : σ) :
    d.apply (model.without gone) ms s = d.apply model ms s := by
  rw [apply, Model.without, List.foldl_map, List.foldl_filter, apply]
  -- Every layer with its place either runs in both models or changes nothing.
  conv_rhs => rw [← List.zipIdx_map_fst 0 model.layers, List.foldl_map]
  apply List.foldl_ext
  intro state e he
  split
  · rfl
  next dropped =>
    have place : e.2 ∈ gone := by simpa using dropped
    exact (d.applyLayer_of_idle (idle _ place _ (List.mem_zipIdx_iff_getElem?.mp he)) state).symm

theorem applyLayer_congr (layer : Layer) {s : σ} {t : τ} (h : fraction s = fraction t) :
    (d.applyLayer (ms, s) layer).1 = (d.applyLayer (ms, t) layer).1 ∧
      fraction (d.applyLayer (ms, s) layer).2 = fraction (d.applyLayer (ms, t) layer).2 := by
  rw [applyLayer, applyLayer, process?_eq_run, process?_eq_run]
  cases d.stage? layer ms with
  | none => exact ⟨rfl, h⟩
  | some stage =>
    have result := stage.run_congr layer.shuffle d.frame layer.probability h
    refine ⟨congrArg PassResult.markers result, ?_⟩
    change fraction (stage.run d.frame layer.probability layer.shuffle s).2 =
      fraction (stage.run d.frame layer.probability layer.shuffle t).2
    rw [Stage.run_skip, Stage.run_skip]
    exact RandomStream.fraction_skip_congr h _

theorem apply_congr (model : Model) {s : σ} {t : τ} (h : fraction s = fraction t) :
    (d.apply model ms s).1 = (d.apply model ms t).1 := by
  obtain ⟨layers⟩ := model
  induction layers generalizing ms s t with
  | nil => rfl
  | cons layer rest ih =>
    obtain ⟨markers, later⟩ := d.applyLayer_congr ms layer h
    calc (d.apply ⟨layer :: rest⟩ ms s).1
      _ = (d.apply ⟨rest⟩ (d.applyLayer (ms, s) layer).1 (d.applyLayer (ms, s) layer).2).1 := rfl
      _ = (d.apply ⟨rest⟩ (d.applyLayer (ms, t) layer).1 (d.applyLayer (ms, t) layer).2).1 := by
        rw [ih _ later, markers]
      _ = (d.apply ⟨layer :: rest⟩ ms t).1 := rfl

/-- Layers in a row are applied one part after the other. Idle layers can be left out at
any places: they are the ones that hand on markers and stream as they came, while every
other layer hands on the markers of its pass and the stream behind it. -/
theorem apply_stack (s : σ) :
    (∀ layers layers', d.apply ⟨layers ++ layers'⟩ ms s =
        d.apply ⟨layers'⟩ (d.apply ⟨layers⟩ ms s).1 (d.apply ⟨layers⟩ ms s).2) ∧
      (∀ (model : Model) (gone : Finset ℕ),
        (∀ i ∈ gone, ∀ layer ∈ model.layers[i]?, layer.Idle) →
          d.apply (model.without gone) ms s = d.apply model ms s) ∧
      ∀ layer : Layer,
        (layer.Idle ∧ d.process? layer ms s = none ∧ d.apply ⟨[layer]⟩ ms s = (ms, s)) ∨
        (¬ layer.Idle ∧ ∃ result s', d.process? layer ms s = some (result, s') ∧
          d.apply ⟨[layer]⟩ ms s = (result.markers, s')) := by
  refine ⟨fun layers layers' => d.apply_append ms layers layers' s,
    fun model gone idle => d.apply_without ms idle s, fun layer => ?_⟩
  cases h : d.process? layer ms s with
  | none =>
    have idle := (d.process?_eq_none_iff ms s).mp h
    exact .inl ⟨idle, rfl, d.applyLayer_of_idle idle (ms, s)⟩
  | some pass =>
    have busy : ¬ layer.Idle := fun idle => by
      simp [(d.process?_eq_none_iff ms s).mpr idle] at h
    refine .inr ⟨busy, pass.1, pass.2, rfl, ?_⟩
    simp [apply, applyLayer, h]

def padded : Model where
  layers := [paved, Layer.standard, { paved with domain := .generic },
    { Layer.standard with pattern := some ⟨[.fresh ⟨0, 0⟩ .ground]⟩ },
    { paved with rotate := false }]

theorem apply_stack_padded :
    (padded.without {1, 2, 3}).layers = [paved, { paved with rotate := false }] ∧
      (∀ i ∈ ({1, 2, 3} : Finset ℕ), ∀ layer ∈ padded.layers[i]?, layer.Idle) ∧
      ¬ paved.Idle ∧
      upright.apply (padded.without {1, 2, 3}) [floorTile] (Congruential.ofSeed 1) =
        upright.apply padded [floorTile] (Congruential.ofSeed 1) := by
  have idle : ∀ i ∈ ({1, 2, 3} : Finset ℕ), ∀ layer ∈ padded.layers[i]?, layer.Idle := by
    decide +kernel
  obtain ⟨-, drop, -⟩ := upright.apply_stack [floorTile] (Congruential.ofSeed 1)
  exact ⟨by decide +kernel, idle, by decide +kernel, drop padded {1, 2, 3} idle⟩

end Processor

end MarkerLattice
