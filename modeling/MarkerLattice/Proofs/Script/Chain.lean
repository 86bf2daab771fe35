import Mathlib
import MarkerLattice.Script.Effect

/-! The chain of actions stays among the nodes of its script, so a script performs
only effects that it has nodes for. -/
namespace MarkerLattice

def Effect.kind : Effect → NodeKind
  | .emit e => .emitMarker e
  | .remove name => .removeMarker name

theorem NodeKind.isEffect_iff (k : NodeKind) : k.isEffect = true ↔ ∃ e : Effect, k = e.kind := by
  constructor
  · intro h
    cases k with
    | emitMarker e => exact ⟨.emit e, rfl⟩
    | removeMarker name => exact ⟨.remove name, rfl⟩
    | _ => simp [isEffect, isAction, isConditional] at h
  · rintro ⟨_ | _, rfl⟩ <;> simp [Effect.kind, isEffect, isAction, isConditional]

theorem Node.effect?_eq_some_iff (n : Node) {e : Effect} :
    n.effect? = some e ↔ n.kind = e.kind := by
  unfold effect?
  cases e <;> cases n.kind <;> simp [Effect.kind]

namespace Script

theorem chainFrom_eq (s : Script) (seen : List NodeId) (n : Node) : s.chainFrom seen n =
    if n.id ∈ seen then []
    else n :: (s.nextAction? n).elim [] (s.chainFrom (n.id :: seen)) := by
  rw [chainFrom]
  split
  · rfl
  · split <;> simp_all

theorem chain_eq (s : Script) :
    s.chain = (s.passNode?.bind s.nextAction?).elim [] (s.chainFrom []) := by
  unfold chain
  cases s.passNode?.bind s.nextAction? <;> rfl

theorem mem_nodes_of_mem_chainFrom {s : Script} {seen : List NodeId} {n m : Node}
    (hn : n ∈ s.nodes) (hm : m ∈ s.chainFrom seen n) : m ∈ s.nodes := by
  fun_induction chainFrom s seen n with
  | case1 => simp at hm
  | case2 seen n fresh ih =>
    rcases List.mem_cons.mp hm with rfl | hm
    · exact hn
    · split at hm
      · simp at hm
      next next hnext =>
        have inside := mem_of_nextAction? hnext
        exact ih next hnext inside hm

theorem mem_nodes_of_mem_chain {s : Script} {m : Node} (h : m ∈ s.chain) : m ∈ s.nodes := by
  unfold chain at h
  split at h
  · simp at h
  next n hn =>
    obtain ⟨entry, -, hn⟩ := Option.bind_eq_some_iff.mp hn
    exact mem_nodes_of_mem_chainFrom (mem_of_nextAction? hn) h

theorem exists_node_of_mem_effects {s : Script} {e : Effect} (h : e ∈ s.effects) :
    ∃ n ∈ s.nodes, n.kind = e.kind := by
  obtain ⟨n, hn, effect⟩ := List.mem_filterMap.mp h
  exact ⟨n, mem_nodes_of_mem_chain hn, n.effect?_eq_some_iff.mp effect⟩

theorem hasEmission_of_emit_mem_effects {s : Script} {e : Emission}
    (h : .emit e ∈ s.effects) : s.hasEmission = true := by
  obtain ⟨n, hn, kind⟩ := exists_node_of_mem_effects h
  exact List.any_eq_true.mpr ⟨n, hn, by rw [kind]; rfl⟩

end Script

end MarkerLattice
