import Mathlib
import MarkerLattice.Pattern.Orientation

/-! What the orientations of a pattern keep of its rules, and which placements
an orientation has. -/
namespace MarkerLattice

namespace Orientation

@[simp] theorem rules_ofRules (rules : List PlacedRule) (angle : Binary32) (n : Int) :
    (ofRules rules angle n).rules = rules := by
  unfold ofRules
  split <;> rfl

@[simp] theorem rules_turned (o : Orientation) :
    o.turned.rules = o.rules.map PlacedRule.turned :=
  rules_ofRules _ _ _

theorem forall_mem_turns {P : Orientation → Prop} (step : ∀ o, P o → P o.turned) (n : Nat)
    (o : Orientation) (h : P o) : ∀ o' ∈ turns n o, P o' := by
  induction n generalizing o with
  | zero => simpa [turns] using h
  | succ n ih =>
    rw [turns, List.forall_mem_cons]
    exact ⟨h, ih o.turned (step o h)⟩

/-- Every rule that emits inserts. -/
def Declared (o : Orientation) : Prop :=
  ∀ r ∈ o.rules, r.script.hasEmission = true → r.inserts = true

theorem declared_turned (o : Orientation) (h : o.Declared) : o.turned.Declared := by
  unfold Declared
  rw [rules_turned, List.forall_mem_map]
  exact h

theorem declared_ofPattern (p : Pattern) : (ofPattern p).Declared := by
  unfold Declared ofPattern
  rw [rules_ofRules, List.forall_mem_map]
  intro r _ emits
  simpa [PlacedRule.ofRule] using Or.inr emits

theorem declared_of_mem_ofPatternAll {p : Pattern} {rotate : Bool} {o : Orientation}
    (h : o ∈ ofPatternAll p rotate) : o.Declared :=
  forall_mem_turns declared_turned _ _ (declared_ofPattern p) o h

end Orientation

namespace Placement

theorem orientation_of_mem_between {o : Orientation} {first last : Coord} {p : Placement}
    (h : p ∈ between o first last) : p.orientation = o := by
  unfold between at h
  split at h
  · simp at h
  · simp only [List.mem_flatMap, List.mem_map] at h
    obtain ⟨y, -, x, -, rfl⟩ := h
    rfl

theorem orientation_of_mem_around {o : Orientation} {w : Window} {p : Placement}
    (h : p ∈ around o w) : p.orientation = o :=
  orientation_of_mem_between h

end Placement

end MarkerLattice
