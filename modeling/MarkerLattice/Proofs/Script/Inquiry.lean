import Mathlib
import MarkerLattice.Proofs.Script.Equations

/-! What a condition finds out about a slot. Two evaluations of one condition on two
slots go along side by side: what holds between their answers to the queries behind a
node, and is kept by the operators there, holds between the values of the node. -/
namespace MarkerLattice.Script

/-- A relation of truth values that no junction breaks. -/
structure KeptByJunctions (R : Bool → Bool → Prop) : Prop where
  refl : ∀ a, R a a
  and : ∀ {a a' b b'}, R a a' → R b b' → R (a && b) (a' && b')
  or : ∀ {a a' b b'}, R a a' → R b b' → R (a || b) (a' || b')

theorem keptByJunctions_eq : KeptByJunctions (· = ·) where
  refl _ := rfl
  and h h' := by rw [h, h']
  or h h' := by rw [h, h']

theorem keptByJunctions_le : KeptByJunctions (· ≤ ·) where
  refl := le_refl
  and := inf_le_inf
  or := sup_le_sup

structure Passes (R : Bool → Bool → Prop) (present present' : String → Bool) (n : Node) :
    Prop where
  query : ∀ name, n.kind = .markerExists name → R (present name) (present' name)
  negation : n.kind = .logicalNot → ∀ a b, R a b → R (!a) (!b)

/-- The names that the queries behind a node ask for. -/
def asked (s : Script) (n : Node) : Set String :=
  {name | ∃ m, s.Reaches n m ∧ m.kind = .markerExists name}

variable {s : Script} {R : Bool → Bool → Prop} {present present' : String → Bool} {n : Node}

theorem worth_related (kept : KeptByJunctions R) {v v' : Node → Bool}
    (related : ∀ m, s.Reads n m → R (v m) (v' m)) (pin : String) :
    R (s.worth v n pin) (s.worth v' n pin) := by
  unfold worth
  cases read : s.reading n pin with
  | nothing => exact kept.refl _
  | default p => exact kept.refl _
  | source m => exact related m (reads_of_reading read)

theorem equation_related (kept : KeptByJunctions R) (passes : Passes R present present' n)
    {v v' : Node → Bool} (related : ∀ m, s.Reads n m → R (v m) (v' m)) :
    R (s.equation present v n) (s.equation present' v' n) := by
  have worth := worth_related kept related
  unfold equation
  cases kind : n.kind with
  | result => exact worth Pin.select
  | logicalAnd => exact kept.and (worth Pin.a) (worth Pin.b)
  | logicalOr => exact kept.or (worth Pin.a) (worth Pin.b)
  | logicalNot => exact passes.negation kind _ _ (worth Pin.defaultInput)
  | markerExists name => exact passes.query name kind
  | onPass | emitMarker e | removeMarker name => exact kept.refl false

/-- Both evaluations stop at the same node of a cycle, where both read nothing. -/
theorem holds_related (kept : KeptByJunctions R) {n : Node}
    (passes : ∀ m, s.Reaches n m → Passes R present present' m) (path : List NodeId) :
    R ((s.conditionAt path n).holds present) ((s.conditionAt path n).holds present') := by
  rw [conditionAt_eq]
  by_cases fresh : n.id ∈ path
  · rw [if_pos fresh]
    exact kept.refl false
  · rw [if_neg fresh, holds_layer, holds_layer]
    apply equation_related kept (passes n .refl)
    intro m read
    have room := room_lt fresh read.mem
    exact holds_related kept (fun k reach => passes k (.head read reach)) _
termination_by s.room path n

/-- A condition finds out about a slot only what the queries behind it ask for, on any
graph: slots that agree on these names give it the same value. Without a negation behind
it, a condition that holds still holds among more markers. -/
theorem holds_of_asked (s : Script) (n : Node) :
    (∀ present present', Set.EqOn present present' (s.asked n) →
      (s.condition n).holds present = (s.condition n).holds present') ∧
    ((∀ m, s.Reaches n m → m.kind ≠ .logicalNot) →
      Monotone fun present => (s.condition n).holds present) := by
  constructor
  · intro present present' agree
    apply holds_related keptByJunctions_eq
    intro m reach
    constructor
    case query =>
      intro name kind
      exact agree ⟨m, reach, kind⟩
    case negation =>
      intro _ a b same
      rw [same]
  · intro positive present present' le
    apply holds_related keptByJunctions_le
    intro m reach
    constructor
    case query =>
      intro name _
      exact le name
    case negation =>
      intro kind
      exact absurd kind (positive m reach)

def roundabout : Script := withEntries.run [
  .createNode (.markerExists "Wall"), .createNode .logicalOr, .createNode .logicalAnd,
  .createNode (.markerExists "Door"), .createNode .logicalNot,
  .link 2 Pin.defaultOutput 3 Pin.a, .link 4 Pin.defaultOutput 3 Pin.b,
  .link 2 Pin.defaultOutput 4 Pin.a, .link 3 Pin.defaultOutput 4 Pin.b,
  .link 5 Pin.defaultOutput 6 Pin.defaultInput]

def roundaboutKinds : List NodeKind := [.markerExists "Wall", .logicalOr, .logicalAnd]

theorem kind_of_reaches_roundabout {m : Node} (hn : n ∈ roundabout.nodes)
    (kind : n.kind ∈ roundaboutKinds) (reach : roundabout.Reaches n m) :
    m.kind ∈ roundaboutKinds := by
  have closed : ∀ k ∈ roundabout.nodes, k.kind ∈ roundaboutKinds →
      ∀ m ∈ roundabout.sources k, m.kind ∈ roundaboutKinds := by decide +kernel
  induction reach with
  | refl => exact kind
  | tail path read ih => exact closed _ (Reaches.mem hn path) ih _ read

theorem holds_of_asked_roundabout : ∃ n ∈ roundabout.nodes, n.kind = .logicalOr ∧
    ¬ roundabout.Acyclic n ∧
    (roundabout.condition n).holds (· == "Wall") =
      (roundabout.condition n).holds (fun _ => true) ∧
    (roundabout.condition n).holds (fun _ => false) ≤
      (roundabout.condition n).holds (· == "Wall") := by
  have circle : ∃ n ∈ roundabout.nodes, n.kind = .logicalOr ∧
      ∃ m ∈ roundabout.sources n, n ∈ roundabout.sources m := by decide +kernel
  obtain ⟨n, hn, kind, m, there, back⟩ := circle
  have behind {m : Node} (reach : roundabout.Reaches n m) : m.kind ∈ roundaboutKinds :=
    kind_of_reaches_roundabout hn (by rw [kind]; decide) reach
  obtain ⟨agree, mono⟩ := holds_of_asked roundabout n
  refine ⟨n, hn, kind, fun acyclic => acyclic n .refl (.tail (.single there) back), ?_, ?_⟩
  · apply agree
    intro name ⟨m, reach, query⟩
    have listed := behind reach
    rw [query] at listed
    simpa [roundaboutKinds] using listed
  · apply mono
    · intro m reach negation
      have listed := behind reach
      rw [negation] at listed
      exact absurd listed (by decide)
    · intro name
      exact Bool.false_le _

end MarkerLattice.Script
