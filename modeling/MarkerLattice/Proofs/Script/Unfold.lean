import Mathlib
import MarkerLattice.Script.Condition
import MarkerLattice.Proofs.Script.Port

/-! Unfolding layer by layer. A condition depends on the path to its node only
through the identifiers that the node can still reach, so where the graph has no
cycle it does not depend on the path at all. -/
namespace MarkerLattice

inductive Reading where
  | nothing
  | default (pin : Pin)
  | source (n : Node)

namespace Script

variable (s : Script)

def sources (n : Node) : List Node :=
  n.inputs.values.filterMap fun p =>
    (p.link.bind fun l => s.node? l.node).filter fun m => m.kind.isConditional

def reading (n : Node) (pin : String) : Reading :=
  match n.inputs.get? pin with
  | none => .nothing
  | some p =>
    match p.link with
    | none => .default p
    | some l =>
      match s.node? l.node with
      | none => .nothing
      | some m => if m.kind.isConditional then .source m else .nothing

def Reads (n m : Node) : Prop := m ∈ s.sources n

/-- `m` is `n` or a condition behind the inputs of `n`. -/
def Reaches : Node → Node → Prop := Relation.ReflTransGen s.Reads

/-- No condition behind `n` reads itself. -/
def Acyclic (n : Node) : Prop := ∀ m, s.Reaches n m → ¬ Relation.TransGen s.Reads m m

variable {s} {n m : Node}

theorem Reads.isConditional (h : s.Reads n m) : m.kind.isConditional = true := by
  obtain ⟨p, -, hp⟩ := List.mem_filterMap.mp h
  exact (Option.filter_eq_some_iff.mp hp).2

theorem Reads.node? (h : s.Reads n m) : s.node? m.id = some m := by
  obtain ⟨p, -, hp⟩ := List.mem_filterMap.mp h
  obtain ⟨l, -, hl⟩ := Option.bind_eq_some_iff.mp (Option.filter_eq_some_iff.mp hp).1
  rwa [id_of_node? hl]

theorem Reads.mem (h : s.Reads n m) : m ∈ s.nodes := mem_of_node? h.node?

inductive Looks (s : Script) (n : Node) (pin : String) : Reading → Prop where
  | missing (get : n.inputs.get? pin = none) : s.Looks n pin .nothing
  | unlinked {p : Pin} (get : n.inputs.get? pin = some p) (link : p.link = none) :
    s.Looks n pin (.default p)
  | dead {p : Pin} {l : Link} (get : n.inputs.get? pin = some p) (link : p.link = some l)
    (node : s.node? l.node = none) : s.Looks n pin .nothing
  | action {p : Pin} {l : Link} {m : Node} (get : n.inputs.get? pin = some p)
    (link : p.link = some l) (node : s.node? l.node = some m)
    (kind : m.kind.isConditional = false) : s.Looks n pin .nothing
  | source {p : Pin} {l : Link} {m : Node} (get : n.inputs.get? pin = some p)
    (link : p.link = some l) (node : s.node? l.node = some m)
    (kind : m.kind.isConditional = true) : s.Looks n pin (.source m)

theorem looks_reading (s : Script) (n : Node) (pin : String) :
    s.Looks n pin (s.reading n pin) := by
  unfold reading
  cases get : n.inputs.get? pin with
  | none => exact .missing get
  | some p =>
    dsimp only
    cases link : p.link with
    | none => exact .unlinked get link
    | some l =>
      dsimp only
      cases node : s.node? l.node with
      | none => exact .dead get link node
      | some m =>
        cases kind : m.kind.isConditional with
        | false => simpa only [kind] using .action get link node kind
        | true => simpa only [kind] using .source get link node kind

theorem reads_of_reading {pin : String} (h : s.reading n pin = .source m) : s.Reads n m := by
  have looks := s.looks_reading n pin
  rw [h] at looks
  cases looks with
  | @source p l _ get link node kind =>
    apply List.mem_filterMap.mpr
    exact ⟨p, List.mem_map_of_mem (NameMap.mem_entries_of_get? get), by
      simp [link, node, kind]⟩

theorem Reaches.mem (hn : n ∈ s.nodes) (h : s.Reaches n m) : m ∈ s.nodes := by
  induction h with
  | refl => exact hn
  | tail _ read => exact read.mem

theorem Reaches.node? (hn : s.node? n.id = some n) (h : s.Reaches n m) :
    s.node? m.id = some m := by
  induction h with
  | refl => exact hn
  | tail _ read => exact read.node?

theorem Acyclic.of_reaches (h : s.Acyclic n) (reach : s.Reaches n m) : s.Acyclic m :=
  fun k hk => h k (reach.trans hk)

/-- A rank that every reader has above what it reads rules cycles out. -/
theorem acyclic_of_rank (rank : Node → Nat)
    (below : ∀ m ∈ s.nodes, ∀ k ∈ s.sources m, rank k < rank m) (hn : n ∈ s.nodes) :
    s.Acyclic n := by
  have descends {m k : Node} (hm : m ∈ s.nodes) (h : Relation.TransGen s.Reads m k) :
      rank k < rank m := by
    induction h with
    | single read => exact below m hm _ read
    | tail path read ih => exact (below _ (Reaches.mem hm path.to_reflTransGen) _ read).trans ih
  intro m reach cycle
  exact lt_irrefl _ (descends (reach.mem hn) cycle)

theorem finite_reaches (s : Script) (n : Node) : {m | s.Reaches n m}.Finite := by
  apply (s.nodes.finite_toSet.insert n).subset
  intro m hm
  rcases Relation.ReflTransGen.cases_tail hm with same | ⟨k, -, read⟩
  · exact .inl same
  · exact .inr read.mem

/-- What holds of a node whenever it holds of all that the node reads, holds of
every node that has no cycle behind it. -/
theorem Acyclic.induction (h : s.Acyclic n) {P : Node → Prop}
    (step : ∀ m, s.Acyclic m → (∀ k, s.Reads m k → P k) → P m) : P n := by
  have : Finite {m // s.Reaches n m} := (s.finite_reaches n).to_subtype
  let behind (a b : {m // s.Reaches n m}) : Prop := Relation.TransGen s.Reads b.1 a.1
  have : IsTrans _ behind := ⟨fun _ _ _ hab hbc => hbc.trans hab⟩
  have : Std.Irrefl behind := ⟨fun a => h a.1 a.2⟩
  have all (a : {m // s.Reaches n m}) : P a.1 := by
    induction a using (Finite.wellFounded_of_trans_of_irrefl behind).induction with
    | h a ih =>
      apply step _ (h.of_reaches a.2)
      intro k hk
      exact ih ⟨k, a.2.tail hk⟩ (.single hk)
  exact all ⟨n, .refl⟩

/-! One layer of unfolding, with the conditions that a node reads unfolded by
`f`. -/

def operand (s : Script) (f : Node → Condition) (n : Node) (pin : String) : Condition :=
  match s.reading n pin with
  | .nothing => .absent
  | .default p => .literal p.defaultBool
  | .source m => if m.isBinary then .grouped (f m) else f m

def layer (s : Script) (f : Node → Condition) (n : Node) : Condition :=
  match n.kind with
  | .result => .selection (s.operand f n Pin.select)
  | .logicalAnd => .conjunction (s.operand f n Pin.a) (s.operand f n Pin.b)
  | .logicalOr => .disjunction (s.operand f n Pin.a) (s.operand f n Pin.b)
  | .logicalNot => .negation (s.operand f n Pin.defaultInput)
  | .markerExists name => .marker name
  | .onPass | .emitMarker _ | .removeMarker _ => .absent

theorem operandAt_eq (path : List NodeId) (fresh : n.id ∉ path) (pin : String) :
    s.operandAt path n fresh pin = s.operand (s.conditionAt (n.id :: path)) n pin := by
  rw [operandAt]
  split
  next hp => simp only [operand, reading, hp]
  next p hp =>
    split
    next hl => simp only [operand, reading, hp, hl]
    next l hl =>
      split
      next hm => simp only [operand, reading, hp, hl, hm]
      next m hm =>
        by_cases conditional : m.kind.isConditional
        · simp only [operand, reading, hp, hl, hm, conditional, if_true]
        · simp only [operand, reading, hp, hl, hm, conditional]
          rfl

theorem conditionAt_eq (path : List NodeId) (n : Node) : s.conditionAt path n =
    if n.id ∈ path then .absent else s.layer (s.conditionAt (n.id :: path)) n := by
  rw [conditionAt]
  by_cases fresh : n.id ∈ path
  · rw [dif_pos fresh, if_pos fresh]
  · rw [dif_neg fresh, if_neg fresh, layer]
    cases n.kind <;> simp only [operandAt_eq]

theorem operand_congr {f g : Node → Condition} (same : ∀ m, s.Reads n m → f m = g m)
    (pin : String) : s.operand f n pin = s.operand g n pin := by
  unfold operand
  cases h : s.reading n pin with
  | nothing => rfl
  | default p => rfl
  | source m => simp only [same m (reads_of_reading h)]

theorem layer_congr {f g : Node → Condition} (same : ∀ m, s.Reads n m → f m = g m) :
    s.layer f n = s.layer g n := by
  unfold layer
  cases n.kind <;> simp only [operand_congr same]

theorem text_selection_layer (f : Node → Condition) (n : Node) :
    (Condition.selection (s.layer f n)).text = (s.layer f n).text := by
  unfold layer
  cases n.kind <;> rfl

/-- Only the identifiers that a node can still reach matter on its path. -/
theorem conditionAt_congr {path path' : List NodeId} {n : Node}
    (same : ∀ m, s.Reaches n m → (m.id ∈ path ↔ m.id ∈ path')) :
    s.conditionAt path n = s.conditionAt path' n := by
  rw [conditionAt_eq, conditionAt_eq]
  by_cases fresh : n.id ∈ path
  · rw [if_pos fresh, if_pos ((same n .refl).mp fresh)]
  · rw [if_neg fresh, if_neg (mt (same n .refl).mpr fresh)]
    apply layer_congr
    intro m read
    -- Both paths grow by `n`, and what `m` reaches `n` reaches too.
    have room := room_lt fresh read.mem
    apply conditionAt_congr
    intro k hk
    rw [List.mem_cons, List.mem_cons, same k (.head read hk)]
termination_by s.room path n

theorem conditionAt_eq_of_reading {t : Script} {n : Node}
    (same : ∀ m, s.Reaches n m → t.reading m = s.reading m) (path : List NodeId) :
    t.conditionAt path n = s.conditionAt path n := by
  rw [conditionAt_eq, conditionAt_eq]
  by_cases fresh : n.id ∈ path
  · rw [if_pos fresh, if_pos fresh]
  · rw [if_neg fresh, if_neg fresh]
    have here (f : Node → Condition) : t.layer f n = s.layer f n := by
      unfold layer operand
      rw [same n .refl]
    rw [here]
    apply layer_congr
    intro m read
    have room := room_lt fresh read.mem
    exact conditionAt_eq_of_reading (fun k hk => same k (.head read hk)) _
termination_by s.room path n

/-- Without a cycle behind `n`, a condition is made of the conditions that `n`
reads: no other node that `n` reaches has the identifier of `n`. -/
theorem Acyclic.condition_eq (acyclic : s.Acyclic n) (hn : s.node? n.id = some n) :
    s.condition n = s.layer s.condition n := by
  rw [condition, conditionAt_eq, if_neg List.not_mem_nil]
  apply layer_congr
  intro m read
  apply conditionAt_congr
  intro k hk
  have behind : Relation.TransGen s.Reads n k := .head' read hk
  have apart : k.id ≠ n.id := by
    intro same
    have found := Reaches.node? hn behind.to_reflTransGen
    rw [same, hn] at found
    obtain rfl := Option.some.inj found
    exact acyclic n .refl behind
  simpa using apart

end Script

end MarkerLattice
