import Mathlib
import MarkerLattice.Proofs.Script.Port
import MarkerLattice.Proofs.Script.Chain

/-! The succession of actions behind the pass entry. However its links lead, into a
loop or out of the script, the actions that run are the longest start of it without a
repeated identifier. -/
namespace MarkerLattice.Script

/-- `l` is met first, in this order, when the next actions are followed from `first`
on. -/
def Follows (s : Script) : Option Node → List Node → Prop
  | _, [] => True
  | first, n :: rest => first = some n ∧ s.Follows (s.nextAction? n) rest

variable {s : Script} {n m : Node} {seen : List NodeId}

theorem follows_chainFrom (s : Script) (seen : List NodeId) (n : Node) :
    s.Follows (some n) (s.chainFrom seen n) := by
  rw [chainFrom_eq]
  by_cases fresh : n.id ∈ seen
  · rw [if_pos fresh]
    trivial
  · rw [if_neg fresh]
    refine ⟨rfl, ?_⟩
    cases next : s.nextAction? n with
    | none => trivial
    | some m =>
      have room := room_lt fresh (mem_of_nextAction? next)
      exact follows_chainFrom s (n.id :: seen) m
termination_by s.room seen n

theorem nodup_chainFrom (s : Script) (seen : List NodeId) (n : Node) :
    ((s.chainFrom seen n).map Node.id).Nodup ∧ ∀ m ∈ s.chainFrom seen n, m.id ∉ seen := by
  rw [chainFrom_eq]
  by_cases fresh : n.id ∈ seen
  · simp [fresh]
  · rw [if_neg fresh]
    cases next : s.nextAction? n with
    | none => simp [fresh]
    | some m =>
      have room := room_lt fresh (mem_of_nextAction? next)
      obtain ⟨distinct, unseen⟩ := nodup_chainFrom s (n.id :: seen) m
      simp only [List.mem_cons, not_or] at unseen
      refine ⟨List.nodup_cons.mpr ⟨fun mem => ?_, distinct⟩, fun k hk => ?_⟩
      · obtain ⟨k, hk, same⟩ := List.mem_map.mp mem
        exact (unseen k hk).1 same
      · rcases List.mem_cons.mp hk with rfl | hk
        · exact fresh
        · exact (unseen k hk).2
termination_by s.room seen n

theorem prefix_chainFrom {l : List Node} {first : Option Node} (follows : s.Follows first l)
    (distinct : (l.map Node.id).Nodup) (unseen : ∀ m ∈ l, m.id ∉ seen) :
    l <+: first.elim [] (s.chainFrom seen) := by
  induction l generalizing first seen with
  | nil => exact List.nil_prefix
  | cons n rest ih =>
    obtain ⟨rfl, follows⟩ := follows
    obtain ⟨fresh, unseen⟩ := List.forall_mem_cons.mp unseen
    obtain ⟨other, distinct⟩ := List.nodup_cons.mp distinct
    have behind : rest <+: (s.nextAction? n).elim [] (s.chainFrom (n.id :: seen)) := by
      apply ih follows distinct
      intro m hm
      rw [List.mem_cons, not_or]
      exact ⟨fun same => other (same ▸ List.mem_map_of_mem hm), unseen m hm⟩
    rw [Option.elim_some, chainFrom_eq, if_neg fresh]
    exact List.cons_prefix_cons.mpr ⟨rfl, behind⟩

theorem nodup_chain (s : Script) : (s.chain.map Node.id).Nodup := by
  rw [chain_eq]
  cases s.passNode?.bind s.nextAction? with
  | none => simp
  | some n => exact (s.nodup_chainFrom [] n).1

theorem length_chain_le (s : Script) : s.chain.length ≤ s.nodes.length := by
  have inside : s.chain.map Node.id ⊆ s.nodes.map Node.id :=
    List.map_subset _ fun _ => mem_nodes_of_mem_chain
  simpa using (s.nodup_chain.subperm inside).length_le

section Loop

variable {σ : Type} (s : Script) (perform : σ → Effect → σ)

/-- The loop over the actions on an executor in state `x`, with the identifiers of
those that have run. It is given up when it takes more rounds than that. -/
def runRounds : Nat → List NodeId → Option Node → σ → Option (Nat × σ)
  | _, visited, none, x => some (visited.length, x)
  | 0, _, some _, _ => none
  | rounds + 1, visited, some n, x =>
    if n.id ∈ visited then some (visited.length, x)
    else runRounds rounds (n.id :: visited) (s.nextAction? n) (n.effect?.elim x (perform x))

def runPass (rounds : Nat) (x : σ) : Option (Nat × σ) :=
  match s.passNode? with
  | none => some (0, x)
  | some head => s.runRounds perform rounds [] (s.nextAction? head) x

variable {s}

theorem runRounds_eq {rounds : Nat} {visited : List NodeId} {first : Option Node}
    (inside : ∀ n ∈ first, n ∈ s.nodes) (enough : s.unseen visited < rounds) (x : σ) :
    s.runRounds perform rounds visited first x =
      some (visited.length + (first.elim [] (s.chainFrom visited)).length,
        ((first.elim [] (s.chainFrom visited)).filterMap Node.effect?).foldl perform x) := by
  induction rounds generalizing visited first x with
  | zero => omega
  | succ rounds ih =>
    cases first with
    | none => rfl
    | some n =>
      rw [runRounds, Option.elim_some, chainFrom_eq]
      by_cases fresh : n.id ∈ visited
      · rw [if_pos fresh, if_pos fresh]
        rfl
      · have less := unseen_cons_lt (inside n rfl) fresh
        have next (m : Node) (hm : m ∈ s.nextAction? n) : m ∈ s.nodes :=
          mem_of_nextAction? hm
        rw [if_neg fresh, if_neg fresh, ih next (by omega), List.length_cons, List.length_cons,
          List.filterMap_cons]
        have count (k : Nat) : visited.length + 1 + k = visited.length + (k + 1) := by omega
        rw [count]
        cases n.effect? <;> rfl

theorem runPass_eq {rounds : Nat} (enough : s.nodes.length < rounds) (x : σ) :
    s.runPass perform rounds x = some (s.chain.length, s.effects.foldl perform x) := by
  have bound : s.unseen [] < rounds := List.countP_le_length.trans_lt enough
  unfold runPass effects
  rw [chain_eq]
  cases s.passNode? with
  | none => rfl
  | some head =>
    have inside (n : Node) (hn : n ∈ s.nextAction? head) : n ∈ s.nodes := mem_of_nextAction? hn
    simpa using runRounds_eq perform inside bound x

end Loop

/-- The actions that run are the longest start of what follows the pass entry in
which no identifier is repeated. The loop over them comes to its end, calls each
effect of them once and in order, and counts them. -/
theorem chain_longest (s : Script) :
    s.Follows (s.passNode?.bind s.nextAction?) s.chain ∧ (s.chain.map Node.id).Nodup ∧
    (∀ l, s.Follows (s.passNode?.bind s.nextAction?) l → (l.map Node.id).Nodup →
      l <+: s.chain) ∧
    s.chain.length ≤ s.nodes.length ∧
    (∀ (σ : Type) (perform : σ → Effect → σ) (x : σ) (rounds : Nat),
      s.nodes.length < rounds →
      s.runPass perform rounds x =
        some (s.chain.length, (s.chain.filterMap Node.effect?).foldl perform x)) ∧
    (s.passNode? = none → s.chain = []) := by
  refine ⟨?_, s.nodup_chain, fun l follows distinct => ?_, s.length_chain_le,
    fun σ perform x rounds enough => runPass_eq perform enough x, fun missing => ?_⟩
  · rw [chain_eq]
    cases s.passNode?.bind s.nextAction? with
    | none => trivial
    | some n => exact s.follows_chainFrom [] n
  · rw [chain_eq]
    exact prefix_chainFrom follows distinct (by simp)
  · rw [chain_eq, missing]
    rfl

def circling : Script :=
  let before (id : NodeId) (n : Node) : Node :=
    n.linkedTo Pin.defaultOutput .output ⟨id, Pin.defaultInput⟩
  { nodes :=
      [before 1 (.ofKind 0 .onPass), before 2 (.ofKind 1 (.emitMarker ⟨"Torch", [], []⟩)),
        before 3 (.ofKind 2 (.removeMarker "Torch")), before 1 (.ofKind 3 .onPass),
        before 9 (.ofKind 3 (.removeMarker "Wall"))]
    nextId := 4, resultId := none, passId := some 0 }

theorem chain_longest_circling : circling.chain.length = 3 ∧
    circling.effects.reverse = [.remove "Torch", .emit ⟨"Torch", [], []⟩] := by
  obtain ⟨-, -, -, -, loop, -⟩ := chain_longest circling
  have ends := loop (List Effect) (fun l e => e :: l) [] 6 (by decide)
  have runs : circling.runPass (fun l e => e :: l) 6 [] =
      some (3, [.remove "Torch", .emit ⟨"Torch", [], []⟩]) := by
    decide +kernel
  obtain ⟨count, calls⟩ := Prod.mk.inj (Option.some.inj (runs.symm.trans ends))
  refine ⟨count.symm, ?_⟩
  rw [calls, effects]
  simp

end MarkerLattice.Script
